import Scriptlet.Proofs.ProgramTyped
import Scriptlet.Proofs.Visits

/-!
# What checking records

A check that succeeds writes to its tables once for each node that it visits: a type
for every expression, a variable for every access and declaration, a function for
every call and function, in the order of the visits (`Annotations.Records`).  If the
nodes have distinct ids nothing is overwritten, so the keys of the tables are the ids
of the visited nodes, and what is recorded for a node is what was found at its visit.

One thing has to be carried along.  Arguments are checked against parameters pairwise,
so all of them are visited only because a function is found under the number of its
parameters (`Checker.Keyed`).
-/

namespace Scriptlet

/-! ### Tables -/

namespace Table

variable {κ α : Type} [DecidableEq κ]

/-- The keys of a table, in the order in which they came. -/
def keys (t : Table κ α) : List κ := t.entries.map Prod.fst

/-- The second table is the first after something was stored under each of the keys, one
after the other. -/
inductive Stores : List κ → Table κ α → Table κ α → Prop where
  | nil {t : Table κ α} : Stores [] t t
  | cons {k : κ} {a : α} {ks : List κ} {t t' : Table κ α} :
    Stores ks (t.insert k a) t' → Stores (k :: ks) t t'

omit [DecidableEq κ] in
/-- There is one key for each entry. -/
theorem keys_length (t : Table κ α) : t.keys.length = t.size := List.length_map ..

/-- A new key comes last. -/
theorem keys_insert_new (t : Table κ α) {k : κ} (a : α) (h : k ∉ t.keys) :
    (t.insert k a).keys = t.keys ++ [k] := by
  obtain ⟨entries⟩ := t
  simp only [keys, insert] at h ⊢
  induction entries with
  | nil => rfl
  | cons entry rest ih =>
    obtain ⟨k', a'⟩ := entry
    rw [List.map_cons, List.mem_cons, not_or] at h
    rw [store, if_neg (Ne.symm h.1), List.map_cons, ih h.2, List.map_cons, List.cons_append]

namespace Stores

variable {t t₁ t₂ : Table κ α} {ks ks' : List κ}

/-- One entry is stored. -/
theorem one (t : Table κ α) (k : κ) (a : α) : Stores [k] t (t.insert k a) := .cons .nil

/-- Entries are stored, and then more of them. -/
theorem trans (h : Stores ks t t₁) (h' : Stores ks' t₁ t₂) : Stores (ks ++ ks') t t₂ := by
  induction h with
  | nil => exact h'
  | cons _ ih => exact .cons (ih h')

/-- Other keys keep what they had. -/
theorem find?_of_not_mem (h : Stores ks t t₁) {k : κ} (hk : k ∉ ks) :
    t₁.find? k = t.find? k := by
  induction h with
  | nil => rfl
  | cons _ ih =>
    rw [List.mem_cons, not_or] at hk
    rw [ih hk.2, find?_insert, if_neg (Ne.symm hk.1)]

/-- No entry is ever removed. -/
theorem isSome_of_isSome (h : Stores ks t t₁) {k : κ} (hk : (t.find? k).isSome) :
    (t₁.find? k).isSome := by
  induction h with
  | nil => exact hk
  | cons _ ih =>
    refine ih ?_
    rw [find?_insert]
    split
    · rfl
    · exact hk

/-- What was stored stays, if perhaps with another value. -/
theorem isSome_of_mem (h : Stores ks t t₁) {k : κ} (hk : k ∈ ks) : (t₁.find? k).isSome := by
  induction h with
  | nil => cases hk
  | cons h ih =>
    rcases List.mem_cons.1 hk with rfl | hk
    · refine h.isSome_of_isSome ?_
      rw [find?_insert, if_pos rfl]
      rfl
    · exact ih hk

/-- **New keys come in the order in which they are stored.** -/
theorem keys_eq (h : Stores ks t t₁) (hks : ks.Nodup) (hnew : t.keys.Disjoint ks) :
    t₁.keys = t.keys ++ ks := by
  induction h with
  | nil => rw [List.append_nil]
  | @cons k a ks t t' _ ih =>
    obtain ⟨hk, hks⟩ := List.nodup_cons.1 hks
    have hfree : k ∉ t.keys := fun hmem => hnew hmem List.mem_cons_self
    have hkeys := keys_insert_new t a hfree
    rw [ih hks, hkeys, List.append_assoc, List.singleton_append]
    rw [hkeys]
    intro k' hk' hmem
    rcases List.mem_append.1 hk' with hk' | hk'
    · exact hnew hk' (List.mem_cons_of_mem k hmem)
    · rw [List.mem_singleton.1 hk'] at hmem
      exact hk hmem

end Stores
end Table

/-! ### Functions are found under the number of their parameters -/

/-- Functions are kept under their name and number of parameters, in all scopes. -/
def Checker.Keyed (s : Checker) : Prop := ∀ scope ∈ s.scopes.scopes, scope.functions.Keyed

namespace Checker.Keyed

variable {s : Checker}

/-- Only the scopes matter. -/
theorem congr {s' : Checker} (h : s.Keyed) (hscopes : s'.scopes = s.scopes) : s'.Keyed := by
  rwa [Checker.Keyed, hscopes]

/-- A new scope has no functions. -/
theorem inner (h : s.Keyed) : s.inner.Keyed := by
  intro scope hscope
  rcases List.mem_append.1 hscope with hscope | hscope
  · exact h scope hscope
  · rw [List.mem_singleton.1 hscope]
    intro _ _ _ hfind
    cases hfind

/-- Scopes that are left take their functions with them. -/
theorem leave (h : s.Keyed) (frame : Frame) :
    Checker.Keyed { s with scopes := s.scopes.leave frame } := fun scope hscope =>
  h scope (List.mem_of_mem_take hscope)

/-- A scope is changed, and its functions stay under the number of their parameters. -/
theorem modify (h : s.Keyed) {i : ScopeId} {f : Scope Unit Unit → Scope Unit Unit}
    (hf : ∀ scope, scope.functions.Keyed → (f scope).functions.Keyed) :
    Checker.Keyed { s with scopes := s.scopes.modify i f } := by
  intro scope hscope
  obtain ⟨j, hj⟩ := List.mem_iff_getElem?.1 hscope
  rw [Scopes.modify, List.getElem?_modify] at hj
  obtain ⟨scope', hscope', rfl⟩ := Option.map_eq_some_iff.1 hj
  have hkeyed := h scope' (List.mem_of_getElem? hscope')
  split
  · exact hf scope' hkeyed
  · exact hkeyed

/-- A function is found under the number of its parameters. -/
theorem arity_eq (h : s.Keyed) {name : String} {n : Nat} {r : Routine Unit}
    (hr : s.scopes.findFunction? name n = some r) : r.parameterTypes.length = n := by
  obtain ⟨⟨i, r'⟩, hsearch, rfl⟩ := Option.map_eq_some_iff.1 hr
  obtain ⟨scope, hscope, hfind⟩ := Scopes.scope_of_search _ hsearch
  exact h scope (List.mem_of_getElem? hscope) name n r' hfind

end Checker.Keyed

/-! ### Records -/

/-- What is recorded for a node is what was found at the visit to it. -/
def Visit.Recorded (a : Annotations) (v : Visit) : Prop :=
  match v.node with
  | .expression e =>
    (∃ ty s', Check.expression e v.state = .ok ty s' ∧ a.types.find? e.id = some ty) ∧
      match e with
      | .access id name | .element id name _ =>
        ∃ found, v.state.scopes.findVariable? name = some found ∧ a.vars.find? id = some found
      | .call id name args =>
        ∃ found, v.state.scopes.findFunction? name args.length = some found ∧
          a.functions.find? id = some found
      | _ => True
  | .list typeName id _ =>
    ∃ declared, typeNamed? typeName = .ok declared ∧ a.types.find? id = some (declared.getD .any)
  | .declaration id name typeName value =>
    ∃ declared actual s' ty, typeNamed? typeName = .ok declared ∧
      Check.expression? value v.state = .ok actual s' ∧
        declaredType name declared actual = .ok ty ∧ a.vars.find? id = some ⟨name, ty, true, ()⟩
  | .global g =>
    ∃ declared actual s' ty, typeNamed? g.typeName = .ok declared ∧
      Check.globalValue declared g.value v.state = .ok actual s' ∧
        declaredType g.name declared actual = .ok ty ∧
          a.vars.find? g.id = some ⟨g.name, ty, g.mutable, ()⟩
  | .function f => ∃ r, Check.signature f = .ok r ∧ a.functions.find? f.id = some r

/-- Only what is recorded for the node itself matters. -/
theorem Visit.Recorded.congr {a a' : Annotations} {v : Visit} (h : v.Recorded a)
    (htypes : a'.types.find? v.node.id = a.types.find? v.node.id)
    (hvars : a'.vars.find? v.node.id = a.vars.find? v.node.id)
    (hfunctions : a'.functions.find? v.node.id = a.functions.find? v.node.id) :
    v.Recorded a' := by
  obtain ⟨node, s⟩ := v
  cases node with
  | expression e =>
    obtain ⟨⟨ty, s', hty, hfind⟩, hbinding⟩ := h
    refine ⟨⟨ty, s', hty, htypes.trans hfind⟩, ?_⟩
    cases e with
    | literal | group | binary | list => trivial
    | access | element =>
      obtain ⟨found, hfound, hv⟩ := hbinding
      exact ⟨found, hfound, hvars.trans hv⟩
    | call =>
      obtain ⟨found, hfound, hr⟩ := hbinding
      exact ⟨found, hfound, hfunctions.trans hr⟩
  | list =>
    obtain ⟨declared, hdeclared, hfind⟩ := h
    exact ⟨declared, hdeclared, htypes.trans hfind⟩
  | declaration | global =>
    obtain ⟨declared, actual, s', ty, hdeclared, hactual, hty, hfind⟩ := h
    exact ⟨declared, actual, s', ty, hdeclared, hactual, hty, hvars.trans hfind⟩
  | function =>
    obtain ⟨r, hr, hfind⟩ := h
    exact ⟨r, hr, hfunctions.trans hfind⟩

/-- Something is recorded for each visit, in order and in the tables that it belongs to;
if the ids are distinct it stays as it was at the visit. -/
structure Annotations.Records (visits : List Visit) (a a' : Annotations) : Prop where
  types : Table.Stores (Visit.ids Node.isTyped visits) a.types a'.types
  vars : Table.Stores (Visit.ids Node.isVariable visits) a.vars a'.vars
  functions : Table.Stores (Visit.ids Node.isFunction visits) a.functions a'.functions
  recorded : (visits.map (·.node.id)).Nodup → ∀ v ∈ visits, v.Recorded a'

namespace Annotations.Records

variable {a a₁ a₂ : Annotations} {visits visits' : List Visit}

/-- Nothing is recorded. -/
theorem nil (a : Annotations) : Records [] a a := ⟨.nil, .nil, .nil, fun _ _ hv => nomatch hv⟩

/-- Later visits record nothing for the nodes of earlier ones. -/
theorem trans (h : Records visits a a₁) (h' : Records visits' a₁ a₂) :
    Records (visits ++ visits') a a₂ where
  types := by
    rw [Visit.ids_append]
    exact h.types.trans h'.types
  vars := by
    rw [Visit.ids_append]
    exact h.vars.trans h'.vars
  functions := by
    rw [Visit.ids_append]
    exact h.functions.trans h'.functions
  recorded := by
    rw [List.map_append]
    intro hnodup v hv
    obtain ⟨hleft, hright, hdisjoint⟩ := List.nodup_append'.1 hnodup
    rcases List.mem_append.1 hv with hv | hv
    · have hout : ∀ test, v.node.id ∉ Visit.ids test visits' := fun test hmem =>
        hdisjoint (List.mem_map_of_mem hv) ((Visit.ids_sublist test visits').subset hmem)
      exact (h.recorded hleft v hv).congr (h'.types.find?_of_not_mem (hout _))
        (h'.vars.find?_of_not_mem (hout _)) (h'.functions.find?_of_not_mem (hout _))
    · exact h'.recorded hright v hv

/-- A single visit. -/
theorem one {v : Visit} (htypes : Table.Stores (Visit.ids Node.isTyped [v]) a.types a₁.types)
    (hvars : Table.Stores (Visit.ids Node.isVariable [v]) a.vars a₁.vars)
    (hfunctions : Table.Stores (Visit.ids Node.isFunction [v]) a.functions a₁.functions)
    (hrecorded : v.Recorded a₁) : Records [v] a a₁ := by
  refine ⟨htypes, hvars, hfunctions, fun _ v' hv' => ?_⟩
  rwa [List.mem_singleton.1 hv']

end Annotations.Records

namespace Check

open Annotations

variable {s s₁ s₂ s' : Checker} {visits visits' : List Visit}

/-! ### Expressions -/

/-- A step that leaves the scopes alone and records what it visits. -/
structure Logs (visits : List Visit) (s s' : Checker) : Prop where
  scopes : s'.scopes = s.scopes
  records : Records visits s.annotations s'.annotations

namespace Logs

/-- Nothing is visited. -/
theorem refl (s : Checker) : Logs [] s s := ⟨rfl, .nil _⟩

/-- One step after the other visits what both visit. -/
theorem trans (h : Logs visits s s₁) (h' : Logs visits' s₁ s₂) : Logs (visits ++ visits') s s₂ :=
  ⟨h'.scopes.trans h.scopes, h.records.trans h'.records⟩

/-- The scopes are the same, so functions stay under the number of their parameters. -/
theorem keyed (h : Logs visits s s') (hs : s.Keyed) : s'.Keyed := hs.congr h.scopes

/-- After its parts, an expression that names nothing gets its type. -/
theorem typed {e : Expr} {ty ty' : Ty} (h : Logs visits s s₁)
    (htyped : Check.typed e.id ty s₁ = .ok ty' s') (hvisit : expression e s = .ok ty' s')
    (hvariable : (Node.expression e).isVariable = false)
    (hfunction : (Node.expression e).isFunction = false) :
    Logs (visits ++ [⟨.expression e, s⟩]) s s' := by
  cases htyped
  refine ⟨h.scopes, h.records.trans (.one ?_ ?_ ?_ ⟨⟨ty, _, hvisit, ?_⟩, ?_⟩)⟩
  · exact .one _ _ _
  · rw [Visit.ids_singleton, hvariable]
    exact .nil
  · rw [Visit.ids_singleton, hfunction]
    exact .nil
  · exact (Table.find?_insert _ _ _ _).trans (if_pos rfl)
  · cases e with
    | literal | group | binary | list => trivial
    | access | element => cases hvariable
    | call => cases hfunction

/-- After its offset, if there is one, an access gets its variable and its type. -/
theorem named {e : Expr} {name : String} {ty : Ty} (h : Logs visits s s₁)
    (hstep : variableType e.id name s₁ = .ok ty s') (hvisit : expression e s = .ok ty s')
    (he : e = .access e.id name ∨ ∃ offset, e = .element e.id name offset) :
    Logs (visits ++ [⟨.expression e, s⟩]) s s' := by
  obtain ⟨v, hfind, hstep⟩ := lookupVariable_ok hstep
  cases hstep
  rw [h.scopes] at hfind
  have hvar := (Table.find?_insert s₁.annotations.vars e.id e.id v).trans (if_pos rfl)
  have htype := (Table.find?_insert s₁.annotations.types e.id e.id v.ty).trans (if_pos rfl)
  refine ⟨h.scopes, h.records.trans ?_⟩
  rcases he with he | ⟨offset, he⟩
  · rw [he] at hvisit ⊢
    exact .one (.one _ _ _) (.one _ _ _) .nil ⟨⟨_, _, hvisit, htype⟩, v, hfind, hvar⟩
  · rw [he] at hvisit ⊢
    exact .one (.one _ _ _) (.one _ _ _) .nil ⟨⟨_, _, hvisit, htype⟩, v, hfind, hvar⟩

/-- After its arguments, a call gets its function and its type. -/
theorem call {id : NodeId} {name : String} {args : List Expr} {r : Routine Unit} {ty : Ty}
    (h : Logs visits s s₁) (hfind : s.scopes.findFunction? name args.length = some r)
    (hstep : (do
      record (·.bindFunction id r)
      Check.typed id r.returnType) s₁ = .ok ty s')
    (hvisit : expression (.call id name args) s = .ok ty s') :
    Logs (visits ++ [⟨.expression (.call id name args), s⟩]) s s' := by
  cases hstep
  have hfunction := (Table.find?_insert s₁.annotations.functions id id r).trans (if_pos rfl)
  have htype := (Table.find?_insert s₁.annotations.types id id r.returnType).trans (if_pos rfl)
  exact ⟨h.scopes, h.records.trans
    (.one (.one _ _ _) .nil (.one _ _ _) ⟨⟨_, _, hvisit, htype⟩, r, hfind, hfunction⟩)⟩

end Logs

mutual

/-- **An expression that is accepted is recorded**, with all the expressions inside it. -/
theorem expression_logs (e : Expr) {s s' : Checker} {ty : Ty} (h : expression e s = .ok ty s')
    (hs : s.Keyed) : Logs (e.visits s) s s' := by
  have hvisit := h
  cases e with
  | literal id value =>
    rw [expression] at h
    obtain ⟨ty', -, h⟩ := rule_ok h
    exact (Logs.refl s).typed h hvisit rfl rfl
  | group id inner =>
    rw [expression] at h
    obtain ⟨-, h⟩ := unless_ok h
    obtain ⟨ty', s₁, hinner, h⟩ := bind_ok.1 h
    exact (expression_logs inner hinner hs).typed h hvisit rfl rfl
  | binary id op left right =>
    rw [expression] at h
    obtain ⟨l, s₁, hl, h⟩ := bind_ok.1 h
    obtain ⟨r, s₂, hr, h⟩ := bind_ok.1 h
    obtain ⟨ty', -, h⟩ := rule_ok h
    have hleft := expression_logs left hl hs
    have hboth := hleft.trans (expression_logs right hr (hleft.keyed hs))
    have hall := hboth.typed (e := .binary id op left right) h hvisit rfl rfl
    rwa [List.append_assoc, ← after_eq hl] at hall
  | access id name =>
    rw [expression] at h
    exact (Logs.refl s).named h hvisit (.inl rfl)
  | element id name offset =>
    rw [expression] at h
    obtain ⟨found, s₁, hoffset, h⟩ := bind_ok.1 h
    obtain ⟨-, h⟩ := unless_ok h
    exact (expression_logs offset hoffset hs).named h hvisit (.inr ⟨offset, rfl⟩)
  | call id name args =>
    rw [expression] at h
    obtain ⟨r, hfind, h⟩ := lookupFunction_ok h
    obtain ⟨_, s₁, hargs, h⟩ := bind_ok.1 h
    have hlength := (hs.arity_eq hfind).symm
    exact (arguments_logs args hargs hlength hs).call hfind h hvisit
  | list id es =>
    rw [expression] at h
    obtain ⟨_, s₁, hes, h⟩ := bind_ok.1 h
    exact (elements_logs es hes hs).typed h hvisit rfl rfl

/-- Each argument is visited, since there are as many as parameters. -/
theorem arguments_logs (es : List Expr) {tys : List Ty} {s s' : Checker} {u : Unit}
    (h : arguments es tys s = .ok u s') (hlength : es.length = tys.length) (hs : s.Keyed) :
    Logs (Expr.visitsOfList es s) s s' := by
  cases es with
  | nil =>
    rw [arguments] at h
    · cases h
      exact .refl s
    · simp
  | cons e es =>
    cases tys with
    | nil => cases hlength
    | cons ty tys =>
      rw [arguments] at h
      obtain ⟨actual, s₁, he, h⟩ := bind_ok.1 h
      obtain ⟨_, -, h⟩ := rule_ok h
      have hfirst := expression_logs e he hs
      have hrest := arguments_logs es h (Nat.succ.inj hlength) (hfirst.keyed hs)
      rw [Expr.visitsOfList, after_eq he]
      exact hfirst.trans hrest

/-- Each element is visited. -/
theorem elements_logs (es : List Expr) {ty : Ty} {s s' : Checker} {u : Unit}
    (h : elements ty es s = .ok u s') (hs : s.Keyed) : Logs (Expr.visitsOfList es s) s s' := by
  cases es with
  | nil =>
    rw [elements] at h
    cases h
    exact .refl s
  | cons e es =>
    rw [elements] at h
    obtain ⟨actual, s₁, he, h⟩ := bind_ok.1 h
    obtain ⟨_, -, h⟩ := rule_ok h
    have hfirst := expression_logs e he hs
    rw [Expr.visitsOfList, after_eq he]
    exact hfirst.trans (elements_logs es h (hfirst.keyed hs))

end

/-- A value is visited, if it is there. -/
theorem expression?_logs {value : Option Expr} {actual : Option Ty}
    (h : expression? value s = .ok actual s') (hs : s.Keyed) :
    Logs (Expr.visitsOfOption value s) s s' := by
  cases value with
  | none =>
    cases h
    exact .refl s
  | some e =>
    obtain ⟨ty, he, -⟩ := map_ok.1 h
    exact expression_logs e he hs

/-! ### Statements -/

/-- A step that records what it visits; functions stay under the number of their
parameters. -/
structure Goes (visits : List Visit) (s s' : Checker) : Prop where
  keyed : s'.Keyed
  records : Records visits s.annotations s'.annotations

/-- A step that leaves the scopes alone is a step. -/
theorem Logs.goes (h : Logs visits s s') (hs : s.Keyed) : Goes visits s s' :=
  ⟨h.keyed hs, h.records⟩

/-- One step after the other visits what both visit. -/
theorem Goes.trans (h : Goes visits s s₁) (h' : Goes visits' s₁ s₂) :
    Goes (visits ++ visits') s s₂ := ⟨h'.keyed, h.records.trans h'.records⟩

/-- To define a variable visits no node, and defines no function. -/
theorem defineVariable_goes {v : Variable Unit} {u : Unit} (h : defineVariable v s = .ok u s')
    (hs : s.Keyed) : Goes [] s s' := by
  obtain ⟨scopes, hdefine, rfl⟩ := defineVariable_ok h
  unfold Scopes.defineVariable at hdefine
  split at hdefine
  · cases hdefine
  · cases hdefine
    exact ⟨hs.modify fun _ hscope => hscope, .nil _⟩

/-- A declaration gets its variable. -/
theorem declare_goes {node : Node} {state : Checker} {v : Variable Unit} {u : Unit}
    (h : declare node.id v s = .ok u s') (hs : s.Keyed) (htyped : node.isTyped = false)
    (hvariable : node.isVariable = true) (hfunction : node.isFunction = false)
    (hrecorded : ∀ {a : Annotations}, a.vars.find? node.id = some v →
      Visit.Recorded a ⟨node, state⟩) : Goes [⟨node, state⟩] s s' := by
  obtain ⟨_, s₁, hdefine, h⟩ := bind_ok.1 h
  have hnone := defineVariable_goes hdefine hs
  obtain ⟨scopes, -, rfl⟩ := defineVariable_ok hdefine
  cases h
  refine ⟨hnone.keyed, .one ?_ ?_ ?_ (hrecorded ?_)⟩
  · rw [Visit.ids_singleton, htyped]
    exact .nil
  · rw [Visit.ids_singleton, hvariable]
    exact .one _ _ _
  · rw [Visit.ids_singleton, hfunction]
    exact .nil
  · exact (Table.find?_insert _ _ _ _).trans (if_pos rfl)

/-- A condition that is accepted is an expression of type `Boolean`. -/
theorem condition_ok {kind : Conditional} {e : Expr} {u : Unit}
    (h : condition kind e s = .ok u s') : expression e s = .ok .boolean s' := by
  obtain ⟨found, s₁, he, h⟩ := bind_ok.1 h
  by_cases hfound : found = .boolean
  · rw [if_pos hfound] at h
    cases h
    rw [he, hfound]
  · rw [if_neg hfound] at h
    cases h

/-- An assignment visits the receiver and then the value. -/
theorem assignTo_goes {name : String} {receiver value : Expr} {u : Unit}
    (h : assignTo name receiver value s = .ok u s') (hs : s.Keyed) :
    Goes (Stmt.visits (.assignment receiver value) s) s s' := by
  obtain ⟨target, s₁, hreceiver, h⟩ := bind_ok.1 h
  obtain ⟨v, -, h⟩ := lookupVariable_ok h
  obtain ⟨-, h⟩ := unless_ok h
  obtain ⟨actual, s₂, hvalue, h⟩ := bind_ok.1 h
  have hlogs := expression_logs receiver hreceiver hs
  have hboth := hlogs.trans (expression_logs value hvalue (hlogs.keyed hs))
  rw [Stmt.visits, after_eq hreceiver]
  cases hfits : requireFits target actual with
  | error e =>
    rw [hfits] at h
    cases h
  | ok u =>
    rw [hfits] at h
    cases h
    exact hboth.goes hs

/-- A `RETURN` visits its value. -/
theorem returnValue_goes {value : Expr} {u : Unit} (h : returnValue value s = .ok u s')
    (hs : s.Keyed) : Goes (value.visits s) s s' := by
  unfold returnValue at h
  split at h
  · cases h
  · rename_i expected _
    obtain ⟨actual, s₁, hvalue, h⟩ := bind_ok.1 h
    cases hfits : requireFits expected actual with
    | error e =>
      rw [hfits] at h
      cases h
    | ok u =>
      rw [hfits] at h
      cases h
      exact (expression_logs value hvalue hs).goes hs

/-- The value of an arm that is accepted was accepted as an expression. -/
theorem caseValue_ok {value : Option Expr} {ty : Ty} {isLast : Bool} {u : Unit}
    (h : caseValue ty isLast value s = .ok u s') : ∃ found, expression? value s = .ok found s' := by
  cases value with
  | none =>
    refine ⟨none, ?_⟩
    rw [caseValue] at h
    cases isLast with
    | true =>
      cases h
      rfl
    | false => cases h
  | some e =>
    obtain ⟨found, s₁, he, h⟩ := bind_ok.1 h
    by_cases hfound : found = ty
    · rw [if_pos hfound] at h
      cases h
      exact ⟨some found, map_ok.2 ⟨found, he, rfl⟩⟩
    · rw [if_neg hfound] at h
      cases h

/-- A step in a scope of its own. -/
theorem inScope_goes {α : Type} {step : Check α} {a : α} (h : inScope step s = .ok a s')
    (hs : s.Keyed)
    (hstep : ∀ {s₁ : Checker}, step s.inner = .ok a s₁ → s.inner.Keyed → Goes visits s.inner s₁) :
    Goes visits s s' := by
  unfold inScope at h
  split at h
  · rename_i s₁ hok
    cases h
    have hgoes := hstep hok hs.inner
    exact ⟨hgoes.keyed.leave _, hgoes.records⟩
  · cases h

mutual

/-- **A statement that is accepted is recorded.** -/
theorem statement_goes (st : Stmt) {s s' : Checker} {u : Unit} (h : statement st s = .ok u s')
    (hs : s.Keyed) : Goes (st.visits s) s s' := by
  cases st with
  | expression e =>
    unfold statement at h
    split at h
    · obtain ⟨ty, s₁, he, h⟩ := bind_ok.1 h
      cases h
      exact (expression_logs _ he hs).goes hs
    · cases h
  | declaration id name typeName value =>
    rw [statement] at h
    obtain ⟨declared, hdeclared, h⟩ := rule_ok h
    obtain ⟨actual, s₁, hvalue, h⟩ := bind_ok.1 h
    obtain ⟨ty, hty, h⟩ := rule_ok h
    have hlogs := expression?_logs hvalue hs
    refine (hlogs.goes hs).trans (declare_goes h (hlogs.keyed hs) rfl rfl rfl fun hfind => ?_)
    exact ⟨declared, actual, s₁, ty, hdeclared, hvalue, hty, hfind⟩
  | assignment receiver value =>
    rw [statement] at h
    unfold assignment at h
    split at h
    · exact assignTo_goes h hs
    · exact assignTo_goes h hs
    · cases h
  | ifElse condition thenBody elseBody =>
    rw [statement] at h
    obtain ⟨_, s₁, hcondition, h⟩ := bind_ok.1 h
    have hcondition := condition_ok hcondition
    by_cases hempty : thenBody.isEmpty = true
    · rw [if_pos hempty] at h
      cases h
    · rw [if_neg hempty] at h
      obtain ⟨_, s₂, hthen, h⟩ := bind_ok.1 h
      have hlogs := expression_logs condition hcondition hs
      have hfirst := inScope_goes hthen (hlogs.keyed hs) (block_goes thenBody)
      have hsecond := inScope_goes h hfirst.keyed (block_goes elseBody)
      rw [Stmt.visits, after_eq hcondition, after_eq hthen]
      exact (hlogs.goes hs).trans (hfirst.trans hsecond)
  | switch condition arms =>
    rw [statement] at h
    obtain ⟨ty, s₁, hcondition, h⟩ := bind_ok.1 h
    have hlogs := expression_logs condition hcondition hs
    rw [Stmt.visits, after_eq hcondition]
    exact (hlogs.goes hs).trans (cases_goes arms h (hlogs.keyed hs))
  | whileDo condition body =>
    rw [statement] at h
    obtain ⟨_, s₁, hcondition, h⟩ := bind_ok.1 h
    have hcondition := condition_ok hcondition
    have hlogs := expression_logs condition hcondition hs
    rw [Stmt.visits, after_eq hcondition]
    exact (hlogs.goes hs).trans (inScope_goes h (hlogs.keyed hs) (block_goes body))
  | returnWith value =>
    rw [statement] at h
    exact returnValue_goes h hs

/-- A block visits its statements in their order. -/
theorem block_goes (body : List Stmt) {s s' : Checker} {u : Unit} (h : block body s = .ok u s')
    (hs : s.Keyed) : Goes (Stmt.visitsOfList body s) s s' := by
  cases body with
  | nil =>
    rw [block] at h
    cases h
    exact (Logs.refl s).goes hs
  | cons first rest =>
    rw [block] at h
    obtain ⟨_, s₁, hfirst, h⟩ := bind_ok.1 h
    have hgoes := statement_goes first hfirst hs
    rw [Stmt.visitsOfList, after_eq hfirst]
    exact hgoes.trans (block_goes rest h hgoes.keyed)

/-- A `SWITCH` visits its arms in their order. -/
theorem cases_goes (arms : List Case) {ty : Ty} {s s' : Checker} {u : Unit}
    (h : Check.cases ty arms s = .ok u s') (hs : s.Keyed) :
    Goes (Case.visitsOfList arms s) s s' := by
  cases arms with
  | nil =>
    rw [Check.cases] at h
    cases h
    exact (Logs.refl s).goes hs
  | cons arm rest =>
    obtain ⟨value, body⟩ := arm
    rw [Check.cases] at h
    obtain ⟨_, s₁, hvalue, h⟩ := bind_ok.1 h
    obtain ⟨found, hvalue⟩ := caseValue_ok hvalue
    obtain ⟨_, s₂, hbody, h⟩ := bind_ok.1 h
    have hlogs := expression?_logs hvalue hs
    have hinner := inScope_goes hbody (hlogs.keyed hs) (block_goes body)
    rw [Case.visitsOfList, after_eq hvalue, after_eq hbody]
    exact (hlogs.goes hs).trans (hinner.trans (cases_goes rest h hinner.keyed))

end

/-! ### Programs -/

/-- The value of a global, be it a list or not. -/
theorem globalValue_logs {g : GlobalDecl} {declared actual : Option Ty}
    (hdeclared : typeNamed? g.typeName = .ok declared)
    (h : globalValue declared g.value s = .ok actual s') (hs : s.Keyed) :
    Logs (match g.value with
      | some (.list id es) => Expr.visitsOfList es s ++ [⟨.list g.typeName id es, s⟩]
      | value => Expr.visitsOfOption value s) s s' := by
  split
  · rename_i id es hvalue
    rw [hvalue] at h
    obtain ⟨_, s₁, hes, h⟩ := bind_ok.1 h
    obtain ⟨ty, h, -⟩ := map_ok.1 h
    cases h
    have hlogs := elements_logs es hes hs
    refine ⟨hlogs.scopes, hlogs.records.trans (.one (.one _ _ _) .nil .nil ?_)⟩
    exact ⟨declared, hdeclared, (Table.find?_insert _ _ _ _).trans (if_pos rfl)⟩
  · rename_i hlist
    rw [globalValue] at h
    · exact expression?_logs h hs
    · exact hlist

/-- A global visits its value and then its own node. -/
theorem global_goes (g : GlobalDecl) {s s' : Checker} {u : Unit} (h : global g s = .ok u s')
    (hs : s.Keyed) : Goes (g.visits s) s s' := by
  obtain ⟨declared, hdeclared, h⟩ := rule_ok h
  obtain ⟨actual, s₁, hvalue, h⟩ := bind_ok.1 h
  obtain ⟨ty, hty, h⟩ := rule_ok h
  have hlogs := globalValue_logs hdeclared hvalue hs
  have hdeclare : Goes [⟨.global g, s⟩] s₁ s' :=
    declare_goes h (hlogs.keyed hs) rfl rfl rfl fun hfind =>
      ⟨declared, actual, s₁, ty, hdeclared, hvalue, hty, hfind⟩
  exact (hlogs.goes hs).trans hdeclare

/-- Parameters have no node to visit. -/
theorem parameters_goes (names : List String) {tys : List Ty} {s s' : Checker} {u : Unit}
    (h : parameters names tys s = .ok u s') (hs : s.Keyed) : Goes [] s s' := by
  induction names generalizing tys s with
  | nil =>
    cases h
    exact (Logs.refl _).goes hs
  | cons name names ih =>
    cases tys with
    | nil =>
      cases h
      exact (Logs.refl _).goes hs
    | cons ty tys =>
      obtain ⟨_, s₁, hdefine, h⟩ := bind_ok.1 h
      have hfirst := defineVariable_goes hdefine hs
      exact hfirst.trans (ih h hfirst.keyed)

/-- A function is recorded at its node after it was defined. -/
theorem defineFunction_goes {f : FunctionDecl} {r : Routine Unit} {u : Unit} (state : Checker)
    (hsignature : signature f = .ok r) (h : defineFunction r s = .ok u s₁) (hs : s.Keyed) :
    Goes [⟨.function f, state⟩] s
      { s₁ with annotations := s₁.annotations.bindFunction f.id r } := by
  unfold defineFunction at h
  split at h
  · rename_i scopes hdefine
    cases h
    unfold Scopes.defineFunction at hdefine
    split at hdefine
    · cases hdefine
    · cases hdefine
      refine ⟨?_, .one .nil .nil (.one _ _ _) ⟨r, hsignature, ?_⟩⟩
      · exact hs.modify fun _ hscope => hscope.insert r
      · exact (Table.find?_insert _ _ _ _).trans (if_pos rfl)
  · cases h

/-- The body of a function, with its parameters in scope. -/
theorem body_goes {f : FunctionDecl} {r : Routine Unit} {u : Unit}
    (h : returning r.returnType (inScope do
      parameters f.parameters r.parameterTypes
      block f.body) s = .ok u s') (hs : s.Keyed) :
    Goes (Stmt.visitsOfList f.body (after (parameters f.parameters r.parameterTypes)
      (Checker.inner { s with returnType := some r.returnType }))) s s' := by
  unfold returning at h
  split at h
  · rename_i s₁ hok
    cases h
    have hgoes := inScope_goes (s := { s with returnType := some r.returnType }) hok hs
      fun {s₂} hbody hs' => by
        obtain ⟨_, s₃, hparameters, hblock⟩ := bind_ok.1 hbody
        have hfirst := parameters_goes f.parameters hparameters hs'
        have hboth := hfirst.trans (block_goes f.body hblock hfirst.keyed)
        rwa [← after_eq hparameters] at hboth
    exact ⟨hgoes.keyed, hgoes.records⟩
  · cases h

/-- A function visits its own node and then its body. -/
theorem function_goes (f : FunctionDecl) {s s' : Checker} {u : Unit}
    (h : function f s = .ok u s') (hs : s.Keyed) : Goes (f.visits s) s s' := by
  obtain ⟨r, hsignature, h⟩ := rule_ok h
  obtain ⟨_, s₁, hdefine, h⟩ := bind_ok.1 h
  have hfirst := defineFunction_goes s hsignature hdefine hs
  have hboth := hfirst.trans (body_goes h hfirst.keyed)
  rw [FunctionDecl.visits, FunctionDecl.bodyState, hsignature]
  simp only [after_eq hdefine]
  exact hboth

/-- A step for each element of a list visits what they visit, in their order. -/
theorem forM_goes {α : Type} {step : α → Check Unit} {visits : α → Checker → List Visit}
    (hstep : ∀ x {s s' : Checker} {u : Unit}, step x s = .ok u s' → s.Keyed →
      Goes (visits x s) s s') (xs : List α) {s s' : Checker} {u : Unit}
    (h : xs.forM step s = .ok u s') (hs : s.Keyed) :
    Goes (visitsOfSteps step visits xs s) s s' := by
  induction xs generalizing s with
  | nil =>
    cases h
    exact (Logs.refl _).goes hs
  | cons x xs ih =>
    obtain ⟨_, s₁, hx, h⟩ := bind_ok.1 h
    have hfirst := hstep x hx hs
    rw [visitsOfSteps, after_eq hx]
    exact hfirst.trans (ih h hfirst.keyed)

/-- At first there is `print` alone, under the number of its parameters. -/
theorem keyed_start : start.Keyed := by
  intro scope hscope
  rw [List.mem_singleton.1 hscope]
  exact Typing.keyed_builtins

end Check

/-- **A program that is accepted is recorded**, visit by visit. -/
theorem Source.records_of_check {p : Source} {a : Annotations} (h : p.check = .ok a) :
    Annotations.Records p.visits .empty a := by
  unfold Source.check at h
  split at h
  · rename_i s hok
    cases h
    obtain ⟨_, s₁, hglobals, hok⟩ := bind_ok.1 hok
    obtain ⟨_, s₂, hfunctions, hok⟩ := bind_ok.1 hok
    have hfirst := Check.forM_goes Check.global_goes p.globals hglobals Check.keyed_start
    have hrest := Check.forM_goes Check.function_goes p.functions hfunctions hfirst.keyed
    obtain ⟨rfl, -⟩ := Check.requireMain_ok hok
    rw [Source.visits, after_eq hglobals]
    exact (hfirst.trans hrest).records
  · cases h

end Scriptlet
