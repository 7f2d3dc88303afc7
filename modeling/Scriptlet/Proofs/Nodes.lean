import Scriptlet.Tree

/-!
# The nodes of a tree

`nodes` lists the node ids of a tree in the order in which a reader hands them out:
what is inside a node comes before the node, and the parts of a node from left to
right.  `unnumbered` forgets the ids, so that two trees agree up to their numbering
if and only if their `unnumbered` forms are equal.  `typeNames` lists the type names
that are written in a tree.  A tree is `plain` if its types are concrete: no type name
is `Any` or `Comparable`, and the only lists, which are of type `Any`, are the values
of globals that name another type.
-/

namespace Scriptlet

mutual

/-- The node ids of an expression, inner nodes first. -/
def Expr.nodes : Expr → List NodeId
  | .literal id _ => [id]
  | .group id inner => inner.nodes ++ [id]
  | .binary id _ left right => left.nodes ++ (right.nodes ++ [id])
  | .access id _ => [id]
  | .element id _ offset => offset.nodes ++ [id]
  | .call id _ args => Expr.nodesOfList args ++ [id]
  | .list id es => Expr.nodesOfList es ++ [id]

/-- The node ids of expressions, from left to right. -/
def Expr.nodesOfList : List Expr → List NodeId
  | [] => []
  | e :: es => e.nodes ++ Expr.nodesOfList es

end

/-- The node ids of an expression that may be absent. -/
def Expr.nodesOfOption : Option Expr → List NodeId
  | none => []
  | some e => e.nodes

mutual

/-- The node ids of a statement. -/
def Stmt.nodes : Stmt → List NodeId
  | .expression e => e.nodes
  | .declaration id _ _ value => Expr.nodesOfOption value ++ [id]
  | .assignment receiver value => receiver.nodes ++ value.nodes
  | .ifElse condition thenBody elseBody =>
    condition.nodes ++ (Stmt.nodesOfList thenBody ++ Stmt.nodesOfList elseBody)
  | .switch condition arms => condition.nodes ++ Case.nodesOfList arms
  | .whileDo condition body => condition.nodes ++ Stmt.nodesOfList body
  | .returnWith value => value.nodes

/-- The node ids of statements, from first to last. -/
def Stmt.nodesOfList : List Stmt → List NodeId
  | [] => []
  | s :: rest => s.nodes ++ Stmt.nodesOfList rest

/-- The node ids of the arms of a `SWITCH`. -/
def Case.nodesOfList : List Case → List NodeId
  | [] => []
  | .mk value body :: rest =>
    Expr.nodesOfOption value ++ (Stmt.nodesOfList body ++ Case.nodesOfList rest)

end

/-- The node ids of a global. -/
def GlobalDecl.nodes (g : GlobalDecl) : List NodeId := Expr.nodesOfOption g.value ++ [g.id]

/-- The node ids of a function. -/
def FunctionDecl.nodes (f : FunctionDecl) : List NodeId := Stmt.nodesOfList f.body ++ [f.id]

/-- The node ids of a program: those of its globals, then those of its functions. -/
def Source.nodes (p : Source) : List NodeId :=
  p.globals.flatMap GlobalDecl.nodes ++ p.functions.flatMap FunctionDecl.nodes

/-! ### Type names -/

mutual

/-- The type names written in a statement. -/
def Stmt.typeNames : Stmt → List String
  | .expression _ => []
  | .declaration _ _ typeName _ => typeName.toList
  | .assignment _ _ => []
  | .ifElse _ thenBody elseBody => Stmt.typeNamesOfList thenBody ++ Stmt.typeNamesOfList elseBody
  | .switch _ arms => Case.typeNamesOfList arms
  | .whileDo _ body => Stmt.typeNamesOfList body
  | .returnWith _ => []

/-- The type names written in statements. -/
def Stmt.typeNamesOfList : List Stmt → List String
  | [] => []
  | s :: rest => s.typeNames ++ Stmt.typeNamesOfList rest

/-- The type names written in the arms of a `SWITCH`. -/
def Case.typeNamesOfList : List Case → List String
  | [] => []
  | .mk _ body :: rest => Stmt.typeNamesOfList body ++ Case.typeNamesOfList rest

end

/-- The type names written in a function. -/
def FunctionDecl.typeNames (f : FunctionDecl) : List String :=
  f.parameterTypeNames ++ (f.returnTypeName.toList ++ Stmt.typeNamesOfList f.body)

/-- The type names written in a program. -/
def Source.typeNames (p : Source) : List String :=
  p.globals.flatMap (·.typeName.toList) ++ p.functions.flatMap FunctionDecl.typeNames

/-! ### Plain trees -/

mutual

/-- No list is written in the expression. -/
def Expr.plain : Expr → Bool
  | .literal _ _ => true
  | .group _ inner => inner.plain
  | .binary _ _ left right => left.plain && right.plain
  | .access _ _ => true
  | .element _ _ offset => offset.plain
  | .call _ _ args => Expr.plainList args
  | .list _ _ => false

/-- No list is written in any of the expressions. -/
def Expr.plainList : List Expr → Bool
  | [] => true
  | e :: es => e.plain && Expr.plainList es

end

/-- No list is written in an expression that may be absent. -/
def Expr.plainOption : Option Expr → Bool
  | none => true
  | some e => e.plain

/-- A type name other than those of the types that accept others. -/
def plainName (name : String) : Bool := name ≠ "Any" && name ≠ "Comparable"

mutual

/-- A statement with plain type names and expressions. -/
def Stmt.plain : Stmt → Bool
  | .expression e => e.plain
  | .declaration _ _ typeName value => typeName.all plainName && Expr.plainOption value
  | .assignment receiver value => receiver.plain && value.plain
  | .ifElse condition thenBody elseBody =>
    condition.plain && (Stmt.plainList thenBody && Stmt.plainList elseBody)
  | .switch condition arms => condition.plain && Case.plainList arms
  | .whileDo condition body => condition.plain && Stmt.plainList body
  | .returnWith value => value.plain

/-- Plain statements. -/
def Stmt.plainList : List Stmt → Bool
  | [] => true
  | s :: rest => s.plain && Stmt.plainList rest

/-- Plain arms of a `SWITCH`. -/
def Case.plainList : List Case → Bool
  | [] => true
  | .mk value body :: rest =>
    Expr.plainOption value && (Stmt.plainList body && Case.plainList rest)

end

/-- A global with a plain type name; a list must have one, and its elements are plain. -/
def GlobalDecl.plain (g : GlobalDecl) : Bool :=
  match g.value with
  | some (.list _ es) => g.typeName.any plainName && Expr.plainList es
  | value => g.typeName.all plainName && Expr.plainOption value

/-- A function with plain type names and a plain body. -/
def FunctionDecl.plain (f : FunctionDecl) : Bool :=
  (f.parameterTypeNames.all plainName && f.returnTypeName.all plainName) && Stmt.plainList f.body

/-- A program of plain globals and functions. -/
def Source.plain (p : Source) : Bool :=
  p.globals.all GlobalDecl.plain && p.functions.all FunctionDecl.plain

/-! ### Trees without their numbering -/

mutual

/-- An expression with all node ids forgotten. -/
def Expr.unnumbered : Expr → Expr
  | .literal _ value => .literal 0 value
  | .group _ inner => .group 0 inner.unnumbered
  | .binary _ op left right => .binary 0 op left.unnumbered right.unnumbered
  | .access _ name => .access 0 name
  | .element _ name offset => .element 0 name offset.unnumbered
  | .call _ name args => .call 0 name (Expr.unnumberedList args)
  | .list _ es => .list 0 (Expr.unnumberedList es)

/-- `Expr.unnumbered`, element by element. -/
def Expr.unnumberedList : List Expr → List Expr
  | [] => []
  | e :: es => e.unnumbered :: Expr.unnumberedList es

end

mutual

/-- A statement with all node ids forgotten. -/
def Stmt.unnumbered : Stmt → Stmt
  | .expression e => .expression e.unnumbered
  | .declaration _ name typeName value =>
    .declaration 0 name typeName (value.map Expr.unnumbered)
  | .assignment receiver value => .assignment receiver.unnumbered value.unnumbered
  | .ifElse condition thenBody elseBody =>
    .ifElse condition.unnumbered (Stmt.unnumberedList thenBody) (Stmt.unnumberedList elseBody)
  | .switch condition arms => .switch condition.unnumbered (Case.unnumberedList arms)
  | .whileDo condition body => .whileDo condition.unnumbered (Stmt.unnumberedList body)
  | .returnWith value => .returnWith value.unnumbered

/-- `Stmt.unnumbered`, statement by statement. -/
def Stmt.unnumberedList : List Stmt → List Stmt
  | [] => []
  | s :: rest => s.unnumbered :: Stmt.unnumberedList rest

/-- The arms of a `SWITCH` with all node ids forgotten. -/
def Case.unnumberedList : List Case → List Case
  | [] => []
  | .mk value body :: rest =>
    .mk (value.map Expr.unnumbered) (Stmt.unnumberedList body) :: Case.unnumberedList rest

end

/-- A global with all node ids forgotten. -/
def GlobalDecl.unnumbered (g : GlobalDecl) : GlobalDecl :=
  { g with id := 0, value := g.value.map Expr.unnumbered }

/-- A function with all node ids forgotten. -/
def FunctionDecl.unnumbered (f : FunctionDecl) : FunctionDecl :=
  { f with id := 0, body := Stmt.unnumberedList f.body }

/-- A program with all node ids forgotten. -/
def Source.unnumbered (p : Source) : Source :=
  ⟨p.globals.map GlobalDecl.unnumbered, p.functions.map FunctionDecl.unnumbered⟩

end Scriptlet
