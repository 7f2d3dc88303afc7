import Scriptlet.Proofs.Conform
import Scriptlet.Proofs.Watch

/-!
# States of a run

The state of a run is compared with a plan: an arena of the same shape in which every
variable has the type it was declared with.  A run may be measured against different
settings.

| setting | what a state that agrees with a plan has |
| --- | --- |
| lists may be anywhere (`notes.lists`) | the names of the plan, mutable as planned |
| otherwise | also values that conform to the types of the plan |

So one account of the steps of a run serves the resolution of names as well as types.
-/

namespace Scriptlet

/-- What a run is measured against: the notes of a derivation, the types of the elements
of lists, and what is known about the functions of the program. -/
structure Setting where
  notes : Notes
  cellType : CellId → Ty
  body : FunctionDecl → Routine Unit → Prop
  named : ∀ ty, notes.named ty → notes.lists ∨ ty.Concrete

/-- The scopes that a state should have, and the number of its cells. -/
structure Plan where
  scopes : Scopes Unit Unit
  cells : Nat

/-- The frames that are in scope, and the functions. -/
def Plan.At (K : Plan) (Φ : Signatures) (Γ : Env) : Prop :=
  Chain K.scopes.scopes Φ K.scopes.current Γ

/-- The plan with other variables in the current scope. -/
def Plan.withVars (K : Plan) (frame : Locals) : Plan := { K with scopes := K.scopes.withVars frame }

/-- The variable of a name in one scope. -/
def Scopes.variableAt {α β : Type} (s : Scopes α β) (i : ScopeId) (name : String) :
    Option (Variable α) := s.scopes[i]?.bind fun scope => scope.vars.find? name

namespace Setting

variable (S : Setting)

/-- A value that may stand where a type is expected. -/
def Fits (ty : Ty) (v : Value) : Prop := S.notes.lists ∨ v.Conforms S.cellType ty

/-- A type that a variable may have. -/
def Declarable (ty : Ty) : Prop := S.notes.lists ∨ ty.Concrete

/-- A planned variable and what a run has for it. -/
structure Holds (v : Variable Unit) (v' : Variable Object) : Prop where
  mutable : v'.mutable = v.mutable
  value : S.Fits v.ty v'.value.value
  declarable : S.Declarable v.ty

/-- The variable that comes from somewhere. -/
def ComesFrom (v : Variable Unit) : Origin → Prop
  | .declared id => S.notes.var id v
  | .parameter ty => v.ty = ty

/-- A planned function and what a run has for it. -/
structure Implements (r : Routine Unit) (r' : Routine Body) : Prop where
  parameterTypes : r'.parameterTypes = r.parameterTypes
  returnType : S.Declarable r.returnType
  body : r'.body = .print ∨ ∃ decl, r'.body = .declared decl Scopes.root ∧ S.body decl r

/-- All elements of lists are of the types of their cells. -/
def HeapFits (h : Heap) : Prop := ∀ cell, ∀ o ∈ h.elements cell, S.Fits (S.cellType cell) o.value

/-- A state that agrees with a plan. -/
structure Agrees (K : Plan) (m : Machine) (origins : Scopes Origin Unit) : Prop where
  scopes : Scopes.Alike S.Holds (Table.Alike S.Implements) K.scopes m.scopes
  origins : Scopes.Alike (fun v v' => S.ComesFrom v v'.value) (fun _ _ => True) K.scopes origins
  heap : S.HeapFits m.heap
  cells : S.notes.lists ∨ m.heap.cells.length = K.cells

/-- A state in which every variable has a value of its type, and so has every element of
a list. -/
structure Typed (m : Machine) (origins : Scopes Origin Unit) : Prop where
  vars : ∀ i name v, m.scopes.variableAt i name = some v →
    ∃ u v', origins.variableAt i name = some v' ∧ S.ComesFrom u v'.value ∧ S.Fits u.ty v.value.value
  heap : S.HeapFits m.heap

/-- A recorded event that agrees with the notes. -/
def EventFits : Event → Prop
  | .step => True
  | .value e o => ∃ ty, S.notes.type e.id ty ∧ S.Fits ty o.value
  | .applying op left right a b =>
    ∃ l r ty, S.notes.type left.id l ∧ S.notes.type right.id r ∧ Typing.OfOperator op l r ty ∧
      S.Fits l a ∧ S.Fits r b

/-- A moment of a run that is as it should be. -/
structure MomentFits (moment : Moment) : Prop where
  typed : S.Typed moment.machine moment.origins
  event : S.EventFits moment.event

/-- A watched state that agrees with a plan, as did all states before it. -/
structure State (K : Plan) (w : Watched) : Prop where
  agrees : S.Agrees K w.machine w.origins
  record : ∀ moment ∈ w.record, S.MomentFits moment

/-- The reasons for which a run may stop, and what is known about the last moment. -/
def HaltFits (record : List Moment) : Halt → Prop
  | .outOfFuel => True
  | .error (.invalidOperands op l r) => ∃ moment rest left right a b,
    record = moment :: rest ∧ moment.event = .applying op left right a b ∧
      Operator.apply moment.machine.heap op a b = .error (.invalidOperands op l r)
  | .error (.expectedBoolean found) =>
    ∃ v, S.Fits .boolean v ∧ (∀ b, v ≠ .boolean b) ∧ found = v.shapeName
  | .error (.expectedInteger found) =>
    ∃ v, S.Fits .integer v ∧ (∀ i, v ≠ .integer i) ∧ found = v.shapeName
  | .error (.expectedList _) => True
  | .error (.indexOutOfBounds _ _) => True
  | .error .divisionByZero => True
  | .error (.invalidExponent _) => True
  | .error .outputFull => True
  | .error _ => False

variable {S}

/-! ### Values -/

theorem Fits.nil (S : Setting) (ty : Ty) : S.Fits ty .nil := .inr (.nil _ ty)

theorem Fits.imp {ty ty' : Ty} {v v' : Value} (h : S.Fits ty v)
    (himp : v.Conforms S.cellType ty → v'.Conforms S.cellType ty') : S.Fits ty' v' :=
  h.imp_right himp

/-- A value fits every type that its own can be assigned to. -/
theorem Fits.assign {ty actual : Ty} {v : Value} (h : S.Fits actual v) (hty : S.Declarable ty)
    (hfits : Typing.Assignable ty actual) : S.Fits ty v := by
  rcases hty with hlists | hty
  · exact .inl hlists
  · exact h.imp fun hv => hv.assign hty hfits

/-- What is in a list fits where the list fits. -/
theorem Fits.of_cell {ty : Ty} {cell : CellId} {v : Value} (h : S.Fits ty (.list cell))
    (hv : S.Fits (S.cellType cell) v) : S.Fits ty v := by
  rcases h with hlists | hnil | hkind | ⟨cell', heq, rfl⟩
  · exact .inl hlists
  · cases hnil
  · cases hkind
  · cases heq
    exact hv

/-- What fits where a list fits may be put into it. -/
theorem Fits.to_cell {ty : Ty} {cell : CellId} {v : Value} (h : S.Fits ty (.list cell))
    (hv : S.Fits ty v) : S.Fits (S.cellType cell) v := by
  rcases h with hlists | hnil | hkind | ⟨cell', heq, rfl⟩
  · exact .inl hlists
  · cases hnil
  · cases hkind
  · cases heq
    exact hv

/-! ### States -/

variable {K : Plan} {m : Machine} {origins : Scopes Origin Unit} {w : Watched}

/-- In a state that agrees with a plan, every variable has a value of its type. -/
theorem Agrees.typed (h : S.Agrees K m origins) : S.Typed m origins where
  heap := h.heap
  vars i name v hv := by
    -- the three arenas have one shape, so a variable of one of them is in all
    have hm := h.scopes.scopes i
    have ho := h.origins.scopes i
    rw [Scopes.variableAt] at hv ⊢
    generalize K.scopes.scopes[i]? = scope at hm ho
    generalize m.scopes.scopes[i]? = scope₁ at hm hv
    generalize origins.scopes[i]? = scope₂ at ho ⊢
    cases hm with
    | none => cases hv
    | some hm =>
      cases ho with
      | some ho =>
        have hx := hm.vars name
        have hy := ho.vars name
        rw [Option.bind_some] at hv ⊢
        rw [hv] at hx
        generalize Table.find? _ name = x at hx hy
        generalize Table.find? _ name = y at hy ⊢
        cases hx with
        | some hholds =>
          cases hy with
          | some hcomes => exact ⟨_, _, rfl, hcomes, hholds.value⟩

theorem State.note (h : S.State K w) {event : Event} (hevent : S.EventFits event) :
    S.State K { w with record := ⟨w.machine, w.origins, event⟩ :: w.record } where
  agrees := h.agrees
  record := by
    intro moment hmoment
    rcases List.mem_cons.1 hmoment with rfl | hmoment
    · exact ⟨h.agrees.typed, hevent⟩
    · exact h.record moment hmoment

end Setting
end Scriptlet
