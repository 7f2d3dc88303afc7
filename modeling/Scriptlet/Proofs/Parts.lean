import Mathlib.Data.List.Nodup
import Scriptlet.Proofs.Nodes
import Scriptlet.Proofs.Typing

/-!
# The expressions of a program

`parts` lists an expression together with the expressions inside it, in the order of
`nodes`, and `Source.expressions` lists those of a whole program.

What checking should have found out about an expression is said by `Annotations.Knows`: its
type, the variable or function that it names, and for an operator that its operands have
types to which it can be applied.  `Annotations.Finds` follows this through a check: at the
nodes of a part something is found out, and elsewhere all stays as it was.
-/

namespace Scriptlet

mutual

/-- An expression and the expressions inside it, inner ones first. -/
def Expr.parts : Expr → List Expr
  | .literal id value => [.literal id value]
  | .group id inner => inner.parts ++ [.group id inner]
  | .binary id op left right => left.parts ++ (right.parts ++ [.binary id op left right])
  | .access id name => [.access id name]
  | .element id name offset => offset.parts ++ [.element id name offset]
  | .call id name args => Expr.partsOfList args ++ [.call id name args]
  | .list id es => Expr.partsOfList es ++ [.list id es]

/-- Expressions and the expressions inside them, from left to right. -/
def Expr.partsOfList : List Expr → List Expr
  | [] => []
  | e :: es => e.parts ++ Expr.partsOfList es

end

/-- An expression that may be absent, and the expressions inside it. -/
def Expr.partsOfOption : Option Expr → List Expr
  | none => []
  | some e => e.parts

mutual

/-- The expressions of a statement. -/
def Stmt.parts : Stmt → List Expr
  | .expression e => e.parts
  | .declaration _ _ _ value => Expr.partsOfOption value
  | .assignment receiver value => receiver.parts ++ value.parts
  | .ifElse condition thenBody elseBody =>
    condition.parts ++ (Stmt.partsOfList thenBody ++ Stmt.partsOfList elseBody)
  | .switch condition arms => condition.parts ++ Case.partsOfList arms
  | .whileDo condition body => condition.parts ++ Stmt.partsOfList body
  | .returnWith value => value.parts

/-- The expressions of statements, from first to last. -/
def Stmt.partsOfList : List Stmt → List Expr
  | [] => []
  | s :: rest => s.parts ++ Stmt.partsOfList rest

/-- The expressions of the arms of a `SWITCH`. -/
def Case.partsOfList : List Case → List Expr
  | [] => []
  | .mk value body :: rest =>
    Expr.partsOfOption value ++ (Stmt.partsOfList body ++ Case.partsOfList rest)

end

/-- The expressions of a global. -/
def GlobalDecl.parts (g : GlobalDecl) : List Expr := Expr.partsOfOption g.value

/-- The expressions of a function. -/
def FunctionDecl.parts (f : FunctionDecl) : List Expr := Stmt.partsOfList f.body

/-- The expressions of a program. -/
def Source.expressions (p : Source) : List Expr :=
  p.globals.flatMap GlobalDecl.parts ++ p.functions.flatMap FunctionDecl.parts

/-- An expression is a part of itself. -/
theorem Expr.mem_parts_self (e : Expr) : e ∈ e.parts := by
  cases e <;> simp [Expr.parts]

/-- A part of expressions is a part of one of them. -/
theorem Expr.mem_partsOfList {es : List Expr} {part : Expr} :
    part ∈ Expr.partsOfList es ↔ ∃ e ∈ es, part ∈ e.parts := by
  induction es with
  | nil => exact ⟨nofun, nofun⟩
  | cons e es ih => rw [Expr.partsOfList, List.mem_append, ih, List.exists_mem_cons_iff]

/-- The node of an expression is one of its nodes. -/
theorem Expr.id_mem_nodes (e : Expr) : e.id ∈ e.nodes := by
  cases e <;> simp [Expr.nodes, Expr.id]

/-! ### Parts of parts -/

/-- With an expression, its parts are there too. -/
def PartsClosed (es : List Expr) : Prop := ∀ e ∈ es, e.parts ⊆ es

namespace PartsClosed

/-- There are no parts. -/
theorem nil : PartsClosed [] := fun _ h => nomatch h

/-- Parts of two lists. -/
theorem append {es es' : List Expr} (h : PartsClosed es) (h' : PartsClosed es') :
    PartsClosed (es ++ es') := by
  intro e he
  rcases List.mem_append.1 he with he | he
  · exact List.Subset.trans (h e he) (List.subset_append_left es es')
  · exact List.Subset.trans (h' e he) (List.subset_append_right es es')

/-- The parts of an expression, and then the expression itself. -/
theorem node {es : List Expr} (h : PartsClosed es) {e : Expr} (hparts : e.parts = es ++ [e]) :
    PartsClosed e.parts := by
  rw [hparts]
  intro e' he'
  rcases List.mem_append.1 he' with he' | he'
  · exact List.Subset.trans (h e' he') (List.subset_append_left es [e])
  · obtain rfl := List.mem_singleton.1 he'
    exact hparts ▸ List.Subset.refl _

/-- Parts of the elements of a list. -/
theorem flatMap {α : Type} {xs : List α} {f : α → List Expr} (h : ∀ x, PartsClosed (f x)) :
    PartsClosed (xs.flatMap f) := by
  induction xs with
  | nil => exact nil
  | cons x xs ih => exact (h x).append ih

end PartsClosed

mutual

/-- Parts of parts of an expression are parts of it. -/
theorem Expr.partsClosed : (e : Expr) → PartsClosed e.parts
  | .literal _ _ | .access _ _ => PartsClosed.nil.node rfl
  | .group _ inner => inner.partsClosed.node rfl
  | .binary _ _ left right =>
    (left.partsClosed.append right.partsClosed).node (List.append_assoc ..).symm
  | .element _ _ offset => offset.partsClosed.node rfl
  | .call _ _ args => (Expr.partsOfList_closed args).node rfl
  | .list _ es => (Expr.partsOfList_closed es).node rfl

/-- Parts of parts of expressions are parts of them. -/
theorem Expr.partsOfList_closed : (es : List Expr) → PartsClosed (Expr.partsOfList es)
  | [] => .nil
  | e :: es => e.partsClosed.append (Expr.partsOfList_closed es)

end

/-- Parts of parts of a value are parts of it. -/
theorem Expr.partsOfOption_closed (value : Option Expr) :
    PartsClosed (Expr.partsOfOption value) := by
  cases value with
  | none => exact .nil
  | some e => exact e.partsClosed

mutual

/-- Parts of parts of a statement are parts of it. -/
theorem Stmt.partsClosed : (s : Stmt) → PartsClosed s.parts
  | .expression e => e.partsClosed
  | .declaration _ _ _ value => Expr.partsOfOption_closed value
  | .assignment receiver value => receiver.partsClosed.append value.partsClosed
  | .ifElse condition thenBody elseBody => condition.partsClosed.append
    ((Stmt.partsOfList_closed thenBody).append (Stmt.partsOfList_closed elseBody))
  | .switch condition arms => condition.partsClosed.append (Case.partsOfList_closed arms)
  | .whileDo condition body => condition.partsClosed.append (Stmt.partsOfList_closed body)
  | .returnWith value => value.partsClosed

/-- Parts of parts of a block are parts of it. -/
theorem Stmt.partsOfList_closed : (body : List Stmt) → PartsClosed (Stmt.partsOfList body)
  | [] => .nil
  | s :: rest => s.partsClosed.append (Stmt.partsOfList_closed rest)

/-- Parts of parts of arms are parts of them. -/
theorem Case.partsOfList_closed : (arms : List Case) → PartsClosed (Case.partsOfList arms)
  | [] => .nil
  | .mk value body :: rest => (Expr.partsOfOption_closed value).append
    ((Stmt.partsOfList_closed body).append (Case.partsOfList_closed rest))

end

/-- Expressions inside expressions of a program are expressions of the program. -/
theorem Source.partsClosed (p : Source) : PartsClosed p.expressions := by
  refine PartsClosed.append (.flatMap fun g => ?_) (.flatMap fun f => ?_)
  · exact Expr.partsOfOption_closed g.value
  · exact Stmt.partsOfList_closed f.body

/-! ### Findings -/

/-- The name of a function in Java text. -/
def javaNameOf (name : String) (arity : Nat) : String :=
  if (name, arity) = ("print", 1) then "System.out.println" else name

namespace Annotations

/-- What is found out about an expression besides its type. -/
def Binds (a : Annotations) : Expr → Prop
  | .literal _ _ | .list _ _ => True
  | .group _ inner => Typing.IsBinary inner
  | .binary id op left right => ∃ l r ty, a.types.find? left.id = some l ∧
    a.types.find? right.id = some r ∧ a.types.find? id = some ty ∧ Typing.OfOperator op l r ty
  | .access id name | .element id name _ => ∃ v, a.vars.find? id = some v ∧ v.name = name
  | .call id name args => ∃ r, a.functions.find? id = some r ∧
    r.javaName = javaNameOf name args.length

/-- What is found out about an expression, if its type is that of some notes. -/
structure Knows (a : Annotations) (N : Notes) (e : Expr) : Prop where
  type : ∃ ty, a.types.find? e.id = some ty ∧ N.type e.id ty
  binds : a.Binds e

/-- The same is found out about some nodes. -/
def SameAt (ids : List NodeId) (a a' : Annotations) : Prop :=
  ∀ id ∈ ids, a'.types.find? id = a.types.find? id ∧ a'.vars.find? id = a.vars.find? id ∧
    a'.functions.find? id = a.functions.find? id

/-- Findings change at the given nodes only, in all tables. -/
def Touches (ids : List NodeId) (a a' : Annotations) : Prop :=
  ∀ jds : List NodeId, jds.Disjoint ids → SameAt jds a a'

/-- What is recorded at a node counts only at the nodes of the expression. -/
theorem Binds.congr {a a' : Annotations} {e : Expr} (h : a.Binds e) (hsame : SameAt e.nodes a a') :
    a'.Binds e := by
  have hid := hsame e.id e.id_mem_nodes
  cases e with
  | literal | list => trivial
  | group => exact h
  | binary id op left right =>
    obtain ⟨l, r, ty, hl, hr, hty, hop⟩ := h
    have hleft := hsame left.id (by simp [Expr.nodes, left.id_mem_nodes])
    have hright := hsame right.id (by simp [Expr.nodes, right.id_mem_nodes])
    exact ⟨l, r, ty, hleft.1.trans hl, hright.1.trans hr, hid.1.trans hty, hop⟩
  | access | element =>
    obtain ⟨v, hv, hname⟩ := h
    exact ⟨v, hid.2.1.trans hv, hname⟩
  | call id name args =>
    obtain ⟨r, hr, hname⟩ := h
    exact ⟨r, hid.2.2.trans hr, hname⟩

/-- What is known about an expression depends only on what is recorded at its nodes. -/
theorem Knows.congr {a a' : Annotations} {N : Notes} {e : Expr} (h : a.Knows N e)
    (hsame : SameAt e.nodes a a') : a'.Knows N e := by
  obtain ⟨ty, hty, hnote⟩ := h.type
  exact ⟨⟨ty, (hsame e.id e.id_mem_nodes).1.trans hty, hnote⟩, h.binds.congr hsame⟩

namespace Touches

variable {a a₁ a₂ : Annotations} {ids jds : List NodeId}

/-- Nothing is touched. -/
theorem refl (ids : List NodeId) (a : Annotations) : Touches ids a a :=
  fun _ _ _ _ => ⟨rfl, rfl, rfl⟩

/-- Nodes of one part are touched, and then those of another. -/
theorem trans (h : Touches ids a a₁) (h' : Touches jds a₁ a₂) : Touches (ids ++ jds) a a₂ := by
  intro kds hdisjoint id hid
  obtain ⟨hids, hjds⟩ := List.disjoint_append_right.1 hdisjoint
  obtain ⟨htypes, hvars, hfunctions⟩ := h kds hids id hid
  obtain ⟨htypes', hvars', hfunctions'⟩ := h' kds hjds id hid
  exact ⟨htypes'.trans htypes, hvars'.trans hvars, hfunctions'.trans hfunctions⟩

/-- An entry at another node is not touched. -/
theorem insert_of_ne {α : Type} (t : Table NodeId α) (value : α) {id i : NodeId} {kds : List NodeId}
    (hdisjoint : kds.Disjoint [id]) (hi : i ∈ kds) : (t.insert id value).find? i = t.find? i := by
  have hne : id ≠ i := by
    rintro rfl
    exact hdisjoint hi (List.mem_singleton_self _)
  rw [Table.find?_insert, if_neg hne]

/-- A type is recorded at one node. -/
theorem setType (a : Annotations) (id : NodeId) (ty : Ty) : Touches [id] a (a.setType id ty) :=
  fun _ hdisjoint _ hi => ⟨insert_of_ne _ _ hdisjoint hi, rfl, rfl⟩

/-- A variable is recorded at one node. -/
theorem bindVariable (a : Annotations) (id : NodeId) (v : Variable Unit) :
    Touches [id] a (a.bindVariable id v) :=
  fun _ hdisjoint _ hi => ⟨rfl, insert_of_ne _ _ hdisjoint hi, rfl⟩

/-- A function is recorded at one node. -/
theorem bindFunction (a : Annotations) (id : NodeId) (r : Routine Unit) :
    Touches [id] a (a.bindFunction id r) :=
  fun _ hdisjoint _ hi => ⟨rfl, rfl, insert_of_ne _ _ hdisjoint hi⟩

/-- Two changes at one node. -/
theorem twice {id : NodeId} (h : Touches [id] a a₁) (h' : Touches [id] a₁ a₂) :
    Touches [id] a a₂ := by
  intro kds hdisjoint
  exact h.trans h' kds (List.disjoint_append_right.2 ⟨hdisjoint, hdisjoint⟩)

end Touches

/-- At the nodes `ids` all is found out that should be known about the expressions `es`, if
the nodes are distinct. -/
structure Finds (N : Notes) (ids : List NodeId) (es : List Expr) (a a' : Annotations) : Prop where
  touches : Touches ids a a'
  nodes : ∀ e ∈ es, e.nodes ⊆ ids
  knows : ids.Nodup → ∀ e ∈ es, a'.Knows N e

namespace Finds

variable {N : Notes} {ids jds : List NodeId} {es es' : List Expr} {a a₁ a₂ : Annotations}

/-- Nothing is found out. -/
theorem refl (N : Notes) (a : Annotations) : Finds N [] [] a a :=
  ⟨.refl [] a, by simp, by simp⟩

/-- What was found out about some nodes is not changed by what is found out about others. -/
theorem trans (h : Finds N ids es a a₁) (h' : Finds N jds es' a₁ a₂) :
    Finds N (ids ++ jds) (es ++ es') a a₂ := by
  refine ⟨h.touches.trans h'.touches, fun e he => ?_, fun hnodup e he => ?_⟩
  · rcases List.mem_append.1 he with he | he
    · exact List.Subset.trans (h.nodes e he) (List.subset_append_left ids jds)
    · exact List.Subset.trans (h'.nodes e he) (List.subset_append_right ids jds)
  · obtain ⟨hids, hjds, hdisjoint⟩ := List.nodup_append'.1 hnodup
    rcases List.mem_append.1 he with he | he
    · have hout : e.nodes.Disjoint jds := fun i hi => hdisjoint (h.nodes e he hi)
      exact (h.knows hids e he).congr (h'.touches _ hout)
    · exact h'.knows hjds e he

/-- After the expressions inside an expression, something is found out about itself. -/
theorem node {e : Expr} (h : Finds N ids es a a₁) (htouches : Touches [e.id] a₁ a₂)
    (hnodes : e.nodes = ids ++ [e.id]) (hparts : e.parts = es ++ [e])
    (hknows : (ids ++ [e.id]).Nodup → a₂.Knows N e) : Finds N e.nodes e.parts a a₂ := by
  refine ⟨hnodes ▸ h.touches.trans htouches, fun e' he' => ?_, fun hnodup e' he' => ?_⟩
  · rw [hparts] at he'
    rcases List.mem_append.1 he' with he' | he'
    · exact hnodes ▸ List.Subset.trans (h.nodes e' he') (List.subset_append_left ids [e.id])
    · obtain rfl := List.mem_singleton.1 he'
      exact List.Subset.refl _
  · rw [hnodes] at hnodup
    rw [hparts] at he'
    obtain ⟨hids, -, hdisjoint⟩ := List.nodup_append'.1 hnodup
    rcases List.mem_append.1 he' with he' | he'
    · have hout : e'.nodes.Disjoint [e.id] := fun i hi => hdisjoint (h.nodes e' he' hi)
      exact (h.knows hids e' he').congr (htouches _ hout)
    · obtain rfl := List.mem_singleton.1 he'
      exact hknows hnodup

/-- The order in which nodes are listed does not matter. -/
theorem perm (h : Finds N ids es a a₁) (hperm : ids.Perm jds) : Finds N jds es a a₁ where
  touches kds hdisjoint := h.touches kds fun _ hk hi => hdisjoint hk (hperm.subset hi)
  nodes e he := List.Subset.trans (h.nodes e he) hperm.subset
  knows hnodup := h.knows (hperm.nodup_iff.2 hnodup)

/-- Findings at a node that is no expression. -/
theorem other {id : NodeId} (htouches : Touches [id] a a₁) : Finds N [id] [] a a₁ :=
  ⟨htouches, by simp, by simp⟩

end Finds
end Annotations
end Scriptlet
