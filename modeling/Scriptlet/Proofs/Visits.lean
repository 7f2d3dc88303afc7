import Mathlib.Data.List.Nodup
import Scriptlet.Proofs.Outcome
import Scriptlet.Proofs.Parts

/-!
# The course of a check

`visits` lists the nodes of a program in the order in which checking comes to them,
each with what was known when it did: the names in scope, the findings so far and the
type to be returned.  A node comes after the expressions inside it, since it is
recorded after them; only a function comes before its body.

| node | is typed | has a variable | has a function |
| --- | --- | --- | --- |
| an expression | yes | if it is an access | if it is a call |
| a list as the value of a global | yes | | |
| a local declaration, a global | | yes | |
| a function | | | yes |

A list that is the value of a global is a kind of its own: its type is that of its
elements, which the global names.
-/

namespace Scriptlet

/-- A node of a program. -/
inductive Node where
  | expression (e : Expr)
  /-- A list that is the value of a global, with the type name of the global. -/
  | list (typeName : Option String) (id : NodeId) (es : List Expr)
  | declaration (id : NodeId) (name : String) (typeName : Option String) (value : Option Expr)
  | global (g : GlobalDecl)
  | function (f : FunctionDecl)

namespace Node

/-- The identity of a node. -/
def id : Node → NodeId
  | expression e => e.id
  | list _ id _ => id
  | declaration id _ _ _ => id
  | global g => g.id
  | function f => f.id

/-- Expressions, lists of globals among them. -/
def isTyped : Node → Bool
  | expression _ | list _ _ _ => true
  | _ => false

/-- Globals, local declarations and accesses to variables or to elements of lists. -/
def isVariable : Node → Bool
  | expression (.access _ _) | expression (.element _ _ _) => true
  | declaration _ _ _ _ | global _ => true
  | _ => false

/-- Functions and calls. -/
def isFunction : Node → Bool
  | expression (.call _ _ _) | function _ => true
  | _ => false

end Node

/-- A node, and what is known when checking comes to it. -/
structure Visit where
  node : Node
  state : Checker

/-- The identities of those visited nodes that a test selects. -/
def Visit.ids (test : Node → Bool) (visits : List Visit) : List NodeId :=
  (visits.filter (test ·.node)).map (·.node.id)

/-- What is known at the start of a block. -/
def Checker.inner (s : Checker) : Checker := { s with scopes := s.scopes.enter s.scopes.current }

mutual

/-- The visits to an expression and to the expressions inside it. -/
def Expr.visits : Expr → Checker → List Visit
  | .literal id value, s => [⟨.expression (.literal id value), s⟩]
  | .group id inner, s => inner.visits s ++ [⟨.expression (.group id inner), s⟩]
  | .binary id op left right, s =>
    left.visits s ++ (right.visits (after (Check.expression left) s) ++
      [⟨.expression (.binary id op left right), s⟩])
  | .access id name, s => [⟨.expression (.access id name), s⟩]
  | .element id name offset, s =>
    offset.visits s ++ [⟨.expression (.element id name offset), s⟩]
  | .call id name args, s =>
    Expr.visitsOfList args s ++ [⟨.expression (.call id name args), s⟩]
  | .list id es, s => Expr.visitsOfList es s ++ [⟨.expression (.list id es), s⟩]

/-- The visits to expressions, from left to right. -/
def Expr.visitsOfList : List Expr → Checker → List Visit
  | [], _ => []
  | e :: es, s => e.visits s ++ Expr.visitsOfList es (after (Check.expression e) s)

end

/-- The visits to an expression that may be absent. -/
def Expr.visitsOfOption : Option Expr → Checker → List Visit
  | none, _ => []
  | some e, s => e.visits s

mutual

/-- The visits to the nodes of a statement. -/
def Stmt.visits : Stmt → Checker → List Visit
  | .expression e, s => e.visits s
  | .declaration id name typeName value, s =>
    Expr.visitsOfOption value s ++ [⟨.declaration id name typeName value, s⟩]
  | .assignment receiver value, s =>
    receiver.visits s ++ value.visits (after (Check.expression receiver) s)
  | .ifElse condition thenBody elseBody, s =>
    let s₁ := after (Check.expression condition) s
    let s₂ := after (Check.inScope (Check.block thenBody)) s₁
    condition.visits s ++
      (Stmt.visitsOfList thenBody s₁.inner ++ Stmt.visitsOfList elseBody s₂.inner)
  | .switch condition arms, s =>
    condition.visits s ++ Case.visitsOfList arms (after (Check.expression condition) s)
  | .whileDo condition body, s =>
    condition.visits s ++ Stmt.visitsOfList body (after (Check.expression condition) s).inner
  | .returnWith value, s => value.visits s

/-- The visits to the nodes of statements, from first to last. -/
def Stmt.visitsOfList : List Stmt → Checker → List Visit
  | [], _ => []
  | first :: rest, s =>
    first.visits s ++ Stmt.visitsOfList rest (after (Check.statement first) s)

/-- The visits to the nodes of the arms of a `SWITCH`. -/
def Case.visitsOfList : List Case → Checker → List Visit
  | [], _ => []
  | .mk value body :: rest, s =>
    let s₁ := after (Check.expression? value) s
    let s₂ := after (Check.inScope (Check.block body)) s₁
    Expr.visitsOfOption value s ++
      (Stmt.visitsOfList body s₁.inner ++ Case.visitsOfList rest s₂)

end

/-- The visits to the nodes of a global. -/
def GlobalDecl.visits (g : GlobalDecl) (s : Checker) : List Visit :=
  (match g.value with
    | some (.list id es) => Expr.visitsOfList es s ++ [⟨.list g.typeName id es, s⟩]
    | value => Expr.visitsOfOption value s) ++ [⟨.global g, s⟩]

/-- What is known at the start of a function's body: the function itself, what it
returns, and its parameters. -/
def FunctionDecl.bodyState (f : FunctionDecl) (s : Checker) : Checker :=
  match Check.signature f with
  | .error _ => s
  | .ok r =>
    let s₁ := after (Check.defineFunction r) s
    let s₂ := after (Check.record (·.bindFunction f.id r)) s₁
    after (Check.parameters f.parameters r.parameterTypes)
      (Checker.inner { s₂ with returnType := some r.returnType })

/-- The visits to a function and the nodes of its body. -/
def FunctionDecl.visits (f : FunctionDecl) (s : Checker) : List Visit :=
  ⟨.function f, s⟩ :: Stmt.visitsOfList f.body (f.bodyState s)

/-- The visits made by steps one after the other. -/
def visitsOfSteps {α : Type} (step : α → Check Unit) (visits : α → Checker → List Visit) :
    List α → Checker → List Visit
  | [], _ => []
  | x :: xs, s => visits x s ++ visitsOfSteps step visits xs (after (step x) s)

/-- The visits to the nodes of a program, in order. -/
def Source.visits (p : Source) : List Visit :=
  visitsOfSteps Check.global GlobalDecl.visits p.globals Check.start ++
    visitsOfSteps Check.function FunctionDecl.visits p.functions
      (after (p.globals.forM Check.global) Check.start)

/-! ### Identities of visited nodes -/

namespace Visit

variable (test : Node → Bool) (visits visits' : List Visit) (v : Visit)

/-- Nodes of two lists of visits. -/
@[simp] theorem ids_append :
    ids test (visits ++ visits') = ids test visits ++ ids test visits' := by
  simp [ids]

/-- The node of one visit, if it passes the test. -/
theorem ids_singleton : ids test [v] = if test v.node then [v.node.id] else [] := by
  cases h : test v.node <;> simp [ids, h]

/-- Nodes that pass a test are some of those visited, in their order. -/
theorem ids_sublist : (ids test visits).Sublist (visits.map (·.node.id)) :=
  (List.filter_sublist).map _

/-- A node is listed if a visit of it passes the test. -/
theorem mem_ids {id : NodeId} :
    id ∈ ids test visits ↔ ∃ v ∈ visits, test v.node = true ∧ v.node.id = id := by
  simp [ids, and_assoc]

end Visit

/-! ### Every node is visited once -/

/-- The visits go to the given nodes, each once, and those to expressions go to the given
expressions in their order. -/
structure Covers (visits : List Visit) (nodes : List NodeId) (parts : List Expr) : Prop where
  nodes : (visits.map (·.node.id)).Perm nodes
  typed : Visit.ids Node.isTyped visits = parts.map Expr.id

namespace Covers

variable {visits visits' : List Visit} {nodes nodes' : List NodeId} {parts parts' : List Expr}

/-- Nothing is visited. -/
theorem nil : Covers [] [] [] := ⟨.refl [], rfl⟩

/-- Visits of two parts cover both. -/
theorem append (h : Covers visits nodes parts) (h' : Covers visits' nodes' parts') :
    Covers (visits ++ visits') (nodes ++ nodes') (parts ++ parts') where
  nodes := by
    rw [List.map_append]
    exact h.nodes.append h'.nodes
  typed := by rw [Visit.ids_append, h.typed, h'.typed, List.map_append]

/-- An expression is visited at its own node. -/
theorem expression (e : Expr) (s : Checker) : Covers [⟨.expression e, s⟩] [e.id] [e] :=
  ⟨.refl _, rfl⟩

/-- A node that is no expression. -/
theorem other {n : Node} (h : n.isTyped = false) (s : Checker) : Covers [⟨n, s⟩] [n.id] [] where
  nodes := .refl _
  typed := by
    rw [Visit.ids_singleton, h]
    rfl

end Covers

mutual

/-- An expression is visited with all its parts. -/
theorem Expr.visits_covers (s : Checker) : (e : Expr) → Covers (e.visits s) e.nodes e.parts
  | .literal id value => .expression (.literal id value) s
  | .group id inner => (inner.visits_covers s).append (.expression (.group id inner) s)
  | .binary id op left right => (left.visits_covers s).append
    ((right.visits_covers _).append (.expression (.binary id op left right) s))
  | .access id name => .expression (.access id name) s
  | .element id name offset =>
    (offset.visits_covers s).append (.expression (.element id name offset) s)
  | .call id name args =>
    (Expr.visitsOfList_covers s args).append (.expression (.call id name args) s)
  | .list id es => (Expr.visitsOfList_covers s es).append (.expression (.list id es) s)

/-- Expressions are visited with all their parts. -/
theorem Expr.visitsOfList_covers (s : Checker) : (es : List Expr) →
    Covers (Expr.visitsOfList es s) (Expr.nodesOfList es) (Expr.partsOfList es)
  | [] => .nil
  | e :: es => (e.visits_covers s).append (Expr.visitsOfList_covers _ es)

end

/-- A value is visited with all its parts, if it is there. -/
theorem Expr.visitsOfOption_covers (s : Checker) (value : Option Expr) :
    Covers (Expr.visitsOfOption value s) (Expr.nodesOfOption value)
      (Expr.partsOfOption value) := by
  cases value with
  | none => exact .nil
  | some e => exact e.visits_covers s

mutual

/-- A statement is visited with all its parts. -/
theorem Stmt.visits_covers (s : Checker) : (st : Stmt) → Covers (st.visits s) st.nodes st.parts
  | .expression e => e.visits_covers s
  | .declaration id name typeName value => by
    have hnode := Covers.other (n := .declaration id name typeName value) rfl s
    have hboth := (Expr.visitsOfOption_covers s value).append hnode
    rwa [List.append_nil] at hboth
  | .assignment receiver value => (receiver.visits_covers s).append (value.visits_covers _)
  | .ifElse condition thenBody elseBody => (condition.visits_covers s).append
    ((Stmt.visitsOfList_covers _ thenBody).append (Stmt.visitsOfList_covers _ elseBody))
  | .switch condition arms =>
    (condition.visits_covers s).append (Case.visitsOfList_covers _ arms)
  | .whileDo condition body =>
    (condition.visits_covers s).append (Stmt.visitsOfList_covers _ body)
  | .returnWith value => value.visits_covers s

/-- A block is visited with all its parts. -/
theorem Stmt.visitsOfList_covers (s : Checker) : (body : List Stmt) →
    Covers (Stmt.visitsOfList body s) (Stmt.nodesOfList body) (Stmt.partsOfList body)
  | [] => .nil
  | first :: rest => (first.visits_covers s).append (Stmt.visitsOfList_covers _ rest)

/-- Arms are visited with all their parts. -/
theorem Case.visitsOfList_covers (s : Checker) : (arms : List Case) →
    Covers (Case.visitsOfList arms s) (Case.nodesOfList arms) (Case.partsOfList arms)
  | [] => .nil
  | .mk value body :: rest => (Expr.visitsOfOption_covers s value).append
    ((Stmt.visitsOfList_covers _ body).append (Case.visitsOfList_covers _ rest))

end

/-- A global is visited with all its parts. -/
theorem GlobalDecl.visits_covers (g : GlobalDecl) (s : Checker) :
    Covers (g.visits s) g.nodes g.parts := by
  have hnode := Covers.other (n := .global g) rfl s
  rw [GlobalDecl.nodes, GlobalDecl.parts, ← List.append_nil (Expr.partsOfOption g.value)]
  refine Covers.append ?_ hnode
  split
  · rename_i id es hvalue
    rw [hvalue]
    exact (Expr.visitsOfList_covers s es).append ⟨.refl _, rfl⟩
  · exact Expr.visitsOfOption_covers s g.value

/-- A function is visited before its body, with all its parts. -/
theorem FunctionDecl.visits_covers (f : FunctionDecl) (s : Checker) :
    Covers (f.visits s) f.nodes f.parts := by
  have hnode := Covers.other (n := .function f) rfl s
  have hboth := hnode.append (Stmt.visitsOfList_covers (f.bodyState s) f.body)
  exact ⟨hboth.nodes.trans List.perm_append_comm, hboth.typed⟩

/-- A step for each element of a list covers all of them. -/
theorem visitsOfSteps_covers {α : Type} {step : α → Check Unit}
    {visits : α → Checker → List Visit} {nodes : α → List NodeId} {parts : α → List Expr}
    (h : ∀ x s, Covers (visits x s) (nodes x) (parts x)) (xs : List α) (s : Checker) :
    Covers (visitsOfSteps step visits xs s) (xs.flatMap nodes) (xs.flatMap parts) := by
  induction xs generalizing s with
  | nil => exact .nil
  | cons x xs ih =>
    rw [List.flatMap_cons, List.flatMap_cons]
    exact (h x s).append (ih _)

/-- **Every node of a program is visited once.** -/
theorem Source.visits_covers (p : Source) : Covers p.visits p.nodes p.expressions :=
  (visitsOfSteps_covers GlobalDecl.visits_covers p.globals _).append
    (visitsOfSteps_covers FunctionDecl.visits_covers p.functions _)

end Scriptlet
