import Scriptlet.Outline
import Scriptlet.Token
import Scriptlet.Tree

/-!
# Tokens and trees in record notation
-/

namespace Scriptlet
namespace Outline

/-- A token. -/
def ofToken (t : Token) : Outline :=
  .record "Token" [("kind", .atom t.kind.name), ("literal", ofString t.literal),
    ("index", ofNat t.index)]

/-- A node id. -/
def ofId (id : NodeId) : Outline := .apply "NodeId" [ofNat id]

/-- A decimal: the unscaled integer and the power of ten it is multiplied by. -/
def ofDecimal (d : Decimal) : Outline :=
  .atom s!"BigDecimal(\"{d.unscaled}e{-d.scale}\")"

/-- A literal. -/
def ofLiteral : Literal → Outline
  | .nil => .atom "Nil"
  | .boolean b => .apply "Boolean" [ofBool b]
  | .integer n => .apply "Integer" [.atom (toString n)]
  | .decimal d => .apply "Decimal" [ofDecimal d]
  | .character c => .apply "Character" [ofChar c]
  | .string s => .apply "String" [ofString s]

/-- The node of an expression: its id, and what it is. -/
def ofNode (id : NodeId) (kind : Outline) : Outline :=
  .record "Expression" [("id", ofId id), ("kind", kind)]

mutual

/-- An expression. -/
def ofExpr : Expr → Outline
  | .literal id value => ofNode id (.apply "Literal" [ofLiteral value])
  | .group id inner => ofNode id (.apply "Group" [ofExpr inner])
  | .binary id op left right =>
    ofNode id (.record "Binary"
      [("operator", .atom op.name), ("left", ofExpr left), ("right", ofExpr right)])
  | .access id name =>
    ofNode id (.record "Access" [("name", ofString name), ("offset", .atom "None")])
  | .element id name offset =>
    ofNode id (.record "Access"
      [("name", ofString name), ("offset", .apply "Some" [ofExpr offset])])
  | .call id name args =>
    ofNode id (.record "Function" [("name", ofString name), ("arguments", .list (ofExprs args))])
  | .list id es => ofNode id (.apply "List" [.list (ofExprs es)])

/-- Expressions. -/
def ofExprs : List Expr → List Outline
  | [] => []
  | e :: es => ofExpr e :: ofExprs es

end

mutual

/-- A statement. -/
def ofStmt : Stmt → Outline
  | .expression e => .apply "Expression" [ofExpr e]
  | .declaration id name typeName value =>
    .apply "Declaration" [.record "Declaration"
      [("id", ofId id), ("name", ofString name), ("type_name", ofOption ofString typeName),
        ("value", ofOption ofExpr value)]]
  | .assignment receiver value =>
    .record "Assignment" [("receiver", ofExpr receiver), ("value", ofExpr value)]
  | .ifElse condition thenBody elseBody =>
    .record "If" [("condition", ofExpr condition), ("then_statements", .list (ofBlock thenBody)),
      ("else_statements", .list (ofBlock elseBody))]
  | .switch condition cases =>
    .record "Switch" [("condition", ofExpr condition), ("cases", .list (ofCases cases))]
  | .whileDo condition body =>
    .record "While" [("condition", ofExpr condition), ("statements", .list (ofBlock body))]
  | .returnWith value => .apply "Return" [ofExpr value]

/-- The statements of a block. -/
def ofBlock : List Stmt → List Outline
  | [] => []
  | first :: rest => ofStmt first :: ofBlock rest

/-- The arms of a `SWITCH`. -/
def ofCases : List Case → List Outline
  | [] => []
  | .mk value body :: rest =>
    .record "Case" [("value", ofOption ofExpr value), ("statements", .list (ofBlock body))] ::
      ofCases rest

end

/-- A global. -/
def ofGlobal (g : GlobalDecl) : Outline :=
  .record "Global" [("id", ofId g.id), ("name", ofString g.name),
    ("type_name", ofOption ofString g.typeName), ("mutable", ofBool g.mutable),
    ("value", ofOption ofExpr g.value)]

/-- A function. -/
def ofFunction (f : FunctionDecl) : Outline :=
  .record "Function" [("id", ofId f.id), ("name", ofString f.name),
    ("parameters", .list (f.parameters.map ofString)),
    ("parameter_type_names", .list (f.parameterTypeNames.map ofString)),
    ("return_type_name", ofOption ofString f.returnTypeName),
    ("statements", .list (ofBlock f.body))]

/-- A program. -/
def ofSource (p : Source) : Outline :=
  .record "Source" [("globals", .list (p.globals.map ofGlobal)),
    ("functions", .list (p.functions.map ofFunction))]

end Outline
end Scriptlet
