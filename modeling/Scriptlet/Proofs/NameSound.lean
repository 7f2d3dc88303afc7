import Scriptlet.Pipeline
import Scriptlet.Proofs.Walk
import Scriptlet.Proofs.ProgramRuns

/-!
# Names of accepted programs resolve

Checking visits every block once, with a scope for each arm of a `SWITCH` and functions
made known one after the other.  A run enters a block as often as it is run, has one
scope for all arms of a `SWITCH`, and makes all functions known first.  Nevertheless
every name that a run looks up or defines is found as checking found it: what can go
wrong in a run depends on its values.

| error | can end a run of an accepted program |
| --- | --- |
| operands, Boolean, integer or list expected | yes |
| index, division, exponent | yes |
| output full | yes |
| names, types, arity, assignment, return | no |
-/

namespace Scriptlet

/-- An error that depends on the values of a run, and not on its names. -/
def EvalError.isOfValues : EvalError → Bool
  | .invalidOperands _ _ _ => true
  | .expectedBoolean _ => true
  | .expectedInteger _ => true
  | .expectedList _ => true
  | .indexOutOfBounds _ _ => true
  | .divisionByZero => true
  | .invalidExponent _ => true
  | .outputFull => true
  | .undefinedVariable _ => false
  | .undefinedFunction _ _ => false
  | .redefinition _ => false
  | .unknownType _ => false
  | .immutableAssignment _ => false
  | .invalidAssignmentTarget => false
  | .arityMismatch _ _ _ => false
  | .unboundFunction _ => false
  | .native _ _ => false
  | .returnOutsideFunction => false

theorem Setting.HaltFits.isOfValues {S : Setting} {record : List Moment} {e : EvalError}
    (h : S.HaltFits record (.error e)) : e.isOfValues = true := by
  cases e with
  | invalidOperands | expectedBoolean | expectedInteger | expectedList | indexOutOfBounds
  | divisionByZero | invalidExponent | outputFull => rfl
  | undefinedVariable | undefinedFunction | redefinition | unknownType | immutableAssignment
  | invalidAssignmentTarget | arityMismatch | unboundFunction | native | returnOutsideFunction =>
    exact h.elim

/-- **The only errors of an accepted program depend on values**: whatever its types, its
fuel and the limit of its output, no run of it fails to find a name, defines one twice,
meets an unknown type, assigns to what cannot be assigned, or calls a function that
cannot be called. -/
theorem run_error_isOfValues_of_check {p : Source} {a : Annotations} (hcheck : p.check = .ok a)
    {fuel : Nat} {limit : Option Nat} {e : EvalError}
    (hrun : (Pipeline.run fuel limit p).1 = .error (.evaluation e)) : e.isOfValues = true := by
  -- with no notes at all, only names are followed
  obtain ⟨S, -, -, hsettles⟩ := Setting.settles_of_check hcheck (N := .any)
    (fun _ _ => .inl trivial) (.inl rfl) (Notes.hold_any a p.nodes)
  have hends := hsettles fuel limit
  have herases := Watch.source_erases fuel p (Watch.start limit)
  revert hends herases
  cases Watch.source fuel p (Watch.start limit) with
  | ok o w =>
    intro _ herases
    have hok : Eval.source fuel p (.start limit) = .ok o w.machine := herases.symm
    rw [Pipeline.run, hok] at hrun
    cases hrun
  | error halt w =>
    rintro ⟨-, hhalt⟩ herases
    have herror : Eval.source fuel p (.start limit) = .error halt w.machine := herases.symm
    rw [Pipeline.run, herror] at hrun
    cases halt with
    | outOfFuel => cases hrun
    | error e' =>
      cases hrun
      exact hhalt.isOfValues

theorem exists_ok_of_any {ε α : Type} {x : Except ε α} (q : α → Bool)
    (h : x.toOption.any q = true) : ∃ a, x = .ok a ∧ q a = true := by
  cases x with
  | ok a => exact ⟨a, rfl, h⟩
  | error e => cases h

/-- The failure of a run that ends with an error of the program. -/
def Pipeline.error? : Except Failure Object → Option EvalError
  | .error (.evaluation e) => some e
  | _ => none

theorem eq_error_of_error? {x : Except Failure Object} {e : EvalError}
    (h : Pipeline.error? x = some e) : x = .error (.evaluation e) := by
  unfold Pipeline.error? at h
  split at h
  · cases h
    rfl
  · cases h

/-- A recursive function with a variable that hides its parameter, and a `SWITCH` whose
arms declare the same name; the variable of the chosen arm has no value. -/
theorem run_error_isOfValues_of_check_uninitialised :
    let count : FunctionDecl := ⟨10, "count", ["n"], ["Integer"], some "Integer",
      [.whileDo (.binary 2 .less (.access 0 "n") (.literal 1 (.integer 1)))
        [.declaration 4 "n" none (some (.literal 3 (.integer 7))), .returnWith (.access 5 "n")],
      .returnWith (.call 9 "count"
        [.binary 8 .subtract (.access 6 "n") (.literal 7 (.integer 1))])]⟩
    let main : FunctionDecl := ⟨20, "main", [], [], some "Integer",
      [.switch (.call 12 "count" [.literal 11 (.integer 1)])
        [.mk (some (.literal 13 (.integer 7)))
          [.declaration 14 "x" (some "Boolean") none,
            .ifElse (.access 15 "x") [.returnWith (.literal 16 (.integer 1))] []],
        .mk none [.declaration 18 "x" none (some (.literal 17 (.integer 2)))]],
      .returnWith (.literal 19 (.integer 0))]⟩
    (∃ a, Source.check ⟨[], [count, main]⟩ = .ok a) ∧
      (Pipeline.run 20 none ⟨[], [count, main]⟩).1 = .error (.evaluation (.expectedBoolean "Nil")) ∧
        (EvalError.expectedBoolean "Nil").isOfValues = true := by
  intro count main
  obtain ⟨a, hcheck, -⟩ := exists_ok_of_any (fun _ => true)
    (show (Source.check ⟨[], [count, main]⟩).toOption.any _ = true by decide +kernel)
  have hrun := eq_error_of_error? (e := .expectedBoolean "Nil")
    (show Pipeline.error? (Pipeline.run 20 none ⟨[], [count, main]⟩).1 = _ by decide +kernel)
  exact ⟨⟨a, hcheck⟩, hrun, run_error_isOfValues_of_check hcheck hrun⟩

end Scriptlet
