import Scriptlet.Proofs.NameSound
import Scriptlet.Proofs.Plain

/-!
# Accepted programs run with the types that were found

Checking annotates every expression and every declaration with a type.  In a run of a
program that was read from a text, accepted, and that does not name the types `Any` and
`Comparable`, all values conform to these types at every moment: they are of the type,
or `NIL`, or a list of the type.  The latter two are all that can be wrong with a value.

| what stops a run | why |
| --- | --- |
| a Boolean or an integer is expected | `NIL` or a list was found |
| the operands are invalid | one is `NIL` or a list |
| the operands of `+` are invalid | or exactly one is of type `String` |
| the operands of `^` are invalid | or the base is a decimal |
-/

namespace Scriptlet
namespace Annotations

variable (a : Annotations) (cellType : CellId → Ty)

/-- The type of the variables that come from somewhere. -/
def originType? : Origin → Option Ty
  | .declared id => (a.vars.find? id).map Variable.ty
  | .parameter ty => some ty

/-- Every variable has a value of its type, and so has every element of a list. -/
structure TypesState (m : Machine) (origins : Scopes Origin Unit) : Prop where
  vars : ∀ i name v, m.scopes.variableAt i name = some v → ∃ v' ty,
    origins.variableAt i name = some v' ∧ a.originType? v'.value = some ty ∧
      v.value.value.Conforms cellType ty
  elements : ∀ cell, ∀ o ∈ m.heap.elements cell, o.value.Conforms cellType (cellType cell)

/-- An expression that has got a value is annotated with its type. -/
def TypesEvent : Event → Prop
  | .value e o => ∃ ty, a.types.find? e.id = some ty ∧ o.value.Conforms cellType ty
  | .step => True
  | .applying _ _ _ _ _ => True

/-- A run is typed in its last state and was at all moments before. -/
structure TypesWatched (w : Watched) : Prop where
  state : a.TypesState cellType w.machine w.origins
  record : ∀ moment ∈ w.record,
    a.TypesState cellType moment.machine moment.origins ∧ a.TypesEvent cellType moment.event

/-- The operands for which an operator has no answer although they are typed. -/
def Unsuited (op : BinaryOp) (left right : Expr) (x y : Value) : Prop :=
  x.isNilOrList = true ∨ y.isNilOrList = true ∨
    op = .add ∧ ¬(a.types.find? left.id = some .string ↔ a.types.find? right.id = some .string) ∨
      op = .power ∧ x.kind? = some .decimal

/-- What is known if an error ends a run: the values that are to blame. -/
def Explains (record : List Moment) : EvalError → Prop
  | .expectedBoolean found => found ∈ ["Nil", "List"]
  | .expectedInteger found => found ∈ ["Nil", "List"]
  | .invalidOperands op l r => ∃ moment rest left right x y, record = moment :: rest ∧
    moment.event = .applying op left right x y ∧ l = x.shapeName ∧ r = y.shapeName ∧
      a.Unsuited op left right x y
  | _ => True

/-- A watched run that is typed, whether it ends, fails or runs out of fuel; the value of
`main` is an integer, if it is not `NIL` or a list. -/
def TypesResult : EStateM.Result Halt Watched Object → Prop
  | .ok o w => a.TypesWatched cellType w ∧
    (o.value.kind? = some .integer ∨ o.value.isNilOrList = true)
  | .error (.error e) w => a.TypesWatched cellType w ∧ a.Explains w.record e
  | .error .outOfFuel w => a.TypesWatched cellType w

/-- The annotations as notes of a derivation. -/
def notes : Notes where
  type id ty := a.types.find? id = some ty
  var id v := a.vars.find? id = some v
  named := Ty.Concrete
  lists := False

end Annotations

namespace Setting

variable {S : Setting} {a : Annotations}

theorem Fits.conforms (hnotes : S.notes = a.notes) {ty : Ty} {v : Value} (h : S.Fits ty v) :
    v.Conforms S.cellType ty := by
  rcases h with hlists | h
  · rw [hnotes] at hlists
    exact hlists.elim
  · exact h

theorem Typed.annotated (hnotes : S.notes = a.notes) {m : Machine} {origins : Scopes Origin Unit}
    (h : S.Typed m origins) : a.TypesState S.cellType m origins where
  vars i name v hv := by
    obtain ⟨u, v', hv', hcomes, hfits⟩ := h.vars i name v hv
    refine ⟨v', u.ty, hv', ?_, hfits.conforms hnotes⟩
    cases horigin : v'.value with
    | declared id =>
      rw [horigin, ComesFrom, hnotes] at hcomes
      exact congrArg (Option.map Variable.ty) hcomes
    | parameter ty =>
      rw [horigin] at hcomes
      exact congrArg some hcomes.symm
  elements cell o ho := (h.heap cell o ho).conforms hnotes

theorem EventFits.annotated (hnotes : S.notes = a.notes) {event : Event}
    (h : S.EventFits event) : a.TypesEvent S.cellType event := by
  cases event with
  | step | applying => trivial
  | value e o =>
    obtain ⟨ty, hty, hfits⟩ := h
    rw [hnotes] at hty
    exact ⟨ty, hty, hfits.conforms hnotes⟩

theorem State.annotated (hnotes : S.notes = a.notes) {K : Plan} {w : Watched}
    (h : S.State K w) : a.TypesWatched S.cellType w where
  state := h.agrees.typed.annotated hnotes
  record moment hmoment :=
    have hfits := h.record moment hmoment
    ⟨hfits.typed.annotated hnotes, hfits.event.annotated hnotes⟩

/-- A value that conforms to a type but is not of it. -/
theorem Fits.shapeName_mem (hnotes : S.notes = a.notes) {ty : Ty} {v : Value} (h : S.Fits ty v)
    (hkind : v.kind? ≠ some ty) : v.shapeName ∈ ["Nil", "List"] := by
  rcases (h.conforms hnotes).isNilOrList_or_kind with hloose | hv
  · cases v with
    | nil | list _ => simp [Value.shapeName]
    | boolean _ | integer _ | decimal _ | character _ | string _ => cases hloose
  · exact absurd hv hkind

/-- A reason to stop is explained by the last moment of the record. -/
theorem HaltFits.explained (hnotes : S.notes = a.notes) {record : List Moment} {e : EvalError}
    (hrecord : ∀ moment ∈ record, S.MomentFits moment) (h : S.HaltFits record (.error e)) :
    a.Explains record e := by
  cases e with
  | expectedBoolean found =>
    obtain ⟨v, hfits, hv, rfl⟩ := h
    refine hfits.shapeName_mem hnotes fun hkind => ?_
    cases v <;> cases hkind
    exact hv _ rfl
  | expectedInteger found =>
    obtain ⟨v, hfits, hv, rfl⟩ := h
    refine hfits.shapeName_mem hnotes fun hkind => ?_
    cases v <;> cases hkind
    exact hv _ rfl
  | invalidOperands op l r =>
    obtain ⟨moment, rest, left, right, x, y, rfl, hevent, happly⟩ := h
    -- the operands and their types are those of the last moment
    have hfits := (hrecord moment List.mem_cons_self).event
    rw [hevent] at hfits
    obtain ⟨ty, ty', _, hty, hty', hop, hx, hy⟩ := hfits
    rw [hnotes] at hty hty'
    have hshapes : l = x.shapeName ∧ r = y.shapeName := by
      rcases Operator.apply_error happly with h | h | ⟨_, h⟩ <;> cases h
      exact ⟨rfl, rfl⟩
    refine ⟨moment, rest, left, right, x, y, rfl, hevent, hshapes.1, hshapes.2, ?_⟩
    have hleft : a.types.find? left.id = some .string ↔ ty = .string := by
      rw [show a.types.find? left.id = some ty from hty, Option.some_inj]
    have hright : a.types.find? right.id = some .string ↔ ty' = .string := by
      rw [show a.types.find? right.id = some ty' from hty', Option.some_inj]
    rw [Annotations.Unsuited, hleft, hright]
    exact Operator.apply_invalid hop (hx.conforms hnotes) (hy.conforms hnotes) happly
  | expectedList | indexOutOfBounds | divisionByZero | invalidExponent | outputFull => trivial
  | undefinedVariable | undefinedFunction | redefinition | unknownType | immutableAssignment
  | invalidAssignmentTarget | arityMismatch | unboundFunction | native | returnOutsideFunction =>
    exact h.elim

/-- A run that settles is typed as checking has noted. -/
theorem Settles.annotated (hnotes : S.notes = a.notes) {result : EStateM.Result Halt Watched Object}
    (h : S.Settles (fun o _ => S.Fits .integer o.value) result) :
    a.TypesResult S.cellType result := by
  match result, h with
  | .ok o w, ⟨K, hw, ho⟩ =>
    exact ⟨hw.annotated hnotes, (ho.conforms hnotes).isNilOrList_or_kind.symm⟩
  | .error (.error e) w, ⟨⟨K, hw⟩, hhalt⟩ =>
    exact ⟨hw.annotated hnotes, hhalt.explained hnotes hw.record⟩
  | .error .outOfFuel w, ⟨⟨K, hw⟩, _⟩ => exact hw.annotated hnotes

end Setting

/-- **Values conform to the types that were found.**  In every run of a program that was
read from a text, was accepted, and does not name the types `Any` and `Comparable`, the
values of expressions and variables conform to the types of their annotations and the
elements of lists to the types of the lists, at every moment, whether the run ends or not.
The reasons for which a run can fail are accordingly few, and `main` gives an integer, `NIL`
or a list. -/
theorem run_typed_of_check {firstId next : NodeId} {text : String} {p : Source} {a : Annotations}
    (hread : Pipeline.sourceFrom firstId text = .ok (p, next)) (hcheck : p.check = .ok a)
    (hnames : ∀ name ∈ p.typeNames, name ≠ "Any" ∧ name ≠ "Comparable") (fuel : Nat)
    (limit : Option Nat) :
    Watch.forget (Watch.source fuel p (Watch.start limit)) = Eval.source fuel p (.start limit) ∧
      a.TypesResult p.cellType (Watch.source fuel p (Watch.start limit)) := by
  obtain ⟨⟨tokens, hprogram⟩, hnodup⟩ := Pipeline.sourceFrom_ok hread
  have hplain : p.plain = true := by
    rw [hprogram.plain_eq, List.all_eq_true]
    intro name hname
    simpa [plainName] using hnames name hname
  have hhold : a.notes.Hold a p.nodes := fun _ _ => ⟨fun _ h => h, fun _ h => h⟩
  obtain ⟨S, hnotes, hcells, hsettles⟩ := Setting.settles_of_check hcheck
    (N := a.notes) (fun _ h => .inr h) (.inr ⟨fun _ h => h, hnodup, hplain⟩) hhold
  refine ⟨Watch.source_erases fuel p (Watch.start limit), ?_⟩
  rw [← hcells]
  exact (hsettles fuel limit).annotated hnotes

/-- Two variables share a list that comes to contain itself; by their types both are
integers, and so is the list that `main` gives. -/
theorem run_typed_of_check_cyclic :
    ∃ p next a, Pipeline.sourceFrom 0 "LIST xs: Integer = [1]; VAR ys = xs;
        FUN main(): Integer DO ys[0] = xs; RETURN xs[0]; END" = .ok (p, next) ∧
      p.check = .ok a ∧ (∀ name ∈ p.typeNames, name ≠ "Any" ∧ name ≠ "Comparable") ∧
        (Pipeline.run 20 none p).1.toOption.map Object.value = some (.list 0) ∧
          Watch.forget (Watch.source 20 p (Watch.start none)) = Eval.source 20 p (.start none) ∧
            a.TypesResult p.cellType (Watch.source 20 p (Watch.start none)) := by
  obtain ⟨⟨p, next⟩, hread, hgood⟩ := exists_ok_of_any
    (fun ⟨p, _⟩ => p.check.toOption.any fun _ => p.typeNames.all plainName &&
      (Pipeline.run 20 none p).1.toOption.map Object.value = some (.list 0))
    (show (Pipeline.sourceFrom 0 "LIST xs: Integer = [1]; VAR ys = xs;
        FUN main(): Integer DO ys[0] = xs; RETURN xs[0]; END").toOption.any _ = true by
      decide +kernel)
  obtain ⟨a, hcheck, hgood⟩ := exists_ok_of_any _ hgood
  obtain ⟨hplain, hrun⟩ := Bool.and_eq_true_iff.1 hgood
  have hnames : ∀ name ∈ p.typeNames, name ≠ "Any" ∧ name ≠ "Comparable" := fun name hname => by
    simpa [plainName] using List.all_eq_true.1 hplain name hname
  exact ⟨p, next, a, hread, hcheck, hnames, of_decide_eq_true hrun,
    run_typed_of_check hread hcheck hnames 20 none⟩

end Scriptlet
