import Scriptlet.Proofs.Walk

/-!
# More fuel

A step that finishes, with a result or with an error of the program, does the same with
more fuel (`steadying_relAt`, `source_steady`).  So a run has at most one outcome, which every
sufficient amount of fuel gives.

The walk compares a watched run that has some fuel with a run that has more
(`Watch.Foretells`); as watching changes nothing, this compares two runs.
-/

namespace Scriptlet

/-- A step ended with a result or with an error of the program. -/
def Finished {α : Type} (result : EStateM.Result Halt Machine α) : Prop :=
  ∀ m, result ≠ .error .outOfFuel m

/-- A result is an end. -/
theorem Finished.ok {α : Type} (a : α) (m : Machine) :
    Finished (.ok a m : EStateM.Result Halt Machine α) := nofun

/-- Wherever the first step finishes, the second one does the same. -/
def Steady {α : Type} (x y : Eval α) : Prop := ∀ m, Finished (x m) → y m = x m

namespace Watch

/-- Wherever the watched step finishes, the other step does the same. -/
def Foretells {α : Type} (x : Watch α) (y : Eval α) : Prop :=
  ∀ w, Finished (forget (x w)) → y w.machine = forget (x w)

namespace Foretells

variable {α β : Type} {x : Watch α} {y : Eval α}

/-- A watched step foretells the step itself. -/
theorem of_erases (h : Erases x y) : Foretells x y := fun w _ => (h w).symm

/-- What a watched step foretells is steady for the step itself. -/
theorem steady (h : Foretells x y) {z : Eval α} (hz : Erases x z) : Steady z y := by
  intro m hfinished
  have hsame : forget (x ⟨m, .ofBuiltins [], []⟩) = z m := hz _
  rw [← hsame] at hfinished ⊢
  exact h _ hfinished

/-- A step without fuel foretells nothing. -/
theorem outOfFuel (y : Eval α) : Foretells (Watch.basic Eval.outOfFuel) y := fun w h =>
  absurd rfl (h w.machine)

/-- One step after the other; the second is compared only for results that the first has. -/
theorem bind {f : α → Watch β} {g : α → Eval β} (hxy : Foretells x y)
    (hfg : ∀ w a w', x w = .ok a w' → Foretells (f a) (g a)) :
    Foretells (x >>= f) (y >>= g) := by
  intro w hfinished
  cases hx : x w with
  | ok a w₁ =>
    have hy : y w.machine = .ok a w₁.machine := by
      rw [hxy w (by rw [hx]; exact .ok a w₁.machine), hx]
      rfl
    rw [bind_eq hx] at hfinished ⊢
    rw [bind_eq hy]
    exact hfg w a w₁ hx w₁ hfinished
  | error e w₁ =>
    rw [bind_eq_error hx] at hfinished ⊢
    have hy : y w.machine = .error e w₁.machine := by
      rw [hxy w, hx]
      · rfl
      · rw [hx]
        intro m h
        cases h
        exact hfinished w₁.machine rfl
    exact bind_eq_error hy g

/-- A scope is opened before the step and closed after it, on both sides. -/
theorem inScopeOf (hxy : Foretells x y) (parent : ScopeId) :
    Foretells (Watch.inScopeOf parent x) (Eval.inScopeOf parent y) := by
  intro w hfinished
  have hinner := hxy { w with
    machine := { w.machine with scopes := w.machine.scopes.enter parent }
    origins := w.origins.enter parent }
  unfold Watch.inScopeOf at hfinished ⊢
  unfold Eval.inScopeOf
  cases hx : x { w with
    machine := { w.machine with scopes := w.machine.scopes.enter parent }
    origins := w.origins.enter parent } with
  | ok a w₁ =>
    rw [hx] at hinner
    rw [hinner (.ok a w₁.machine)]
    rfl
  | error e w₁ =>
    rw [hx] at hinner hfinished
    have hstop : e ≠ .outOfFuel := by
      rintro rfl
      exact hfinished _ rfl
    rw [hinner fun m h => hstop (EStateM.Result.error.inj h).1]
    rfl

end Foretells

end Watch

namespace Steady

variable {α β : Type} {x y : Eval α}

/-- A step does what it does. -/
theorem refl (x : Eval α) : Steady x x := fun _ _ => rfl

/-- What is steady is foretold by the step when it is watched. -/
theorem foretells (h : Steady x y) : Watch.Foretells (Watch.basic x) y := by
  intro w hfinished
  rw [Watch.Erases.basic x w] at hfinished ⊢
  exact h w.machine hfinished

/-- One step after the other. -/
theorem bind {f g : α → Eval β} (hxy : Steady x y) (hfg : ∀ a, Steady (f a) (g a)) :
    Steady (x >>= f) (y >>= g) :=
  (hxy.foretells.bind fun _ a _ _ => (hfg a).foretells).steady
    ((Watch.Erases.basic x).bind fun _ a _ _ => .basic (f a))

/-- A step in a scope of its own. -/
theorem inScope (hxy : Steady x y) : Steady (Eval.inScope x) (Eval.inScope y) := fun m =>
  (hxy.foretells.inScopeOf m.scopes.current).steady ((Watch.Erases.basic x).inScopeOf _) m

/-- One of two steps. -/
theorem ite {b : Bool} {x' y' : Eval α} (h : Steady x y) (h' : Steady x' y') :
    Steady (if b then x else x') (if b then y else y') := by
  cases b with
  | false => exact h'
  | true => exact h

end Steady

namespace Watch

/-- The walk that compares a run with one that has more fuel. -/
def steadying : Walk := { StepKind.any with Rel _ x y := Foretells x y }

/-- The laws of the walk, for a run and one that has more fuel. -/
theorem steadying_lawful : steadying.Lawful where
  steps := StepKind.any_lawful
  basic _ := .of_erases (.basic _)
  weaken h := h
  pure _ := .of_erases (.pure _)
  note _ := .of_erases fun _ => rfl
  place _ := .of_erases fun _ => rfl
  seq _ hx _ hxy hfg := Foretells.bind hxy fun w a w' hok => hfg a (hx w a w' hok)
  lookupFunction _ _ h := (Foretells.of_erases (.basic _)).bind fun _ r _ _ => h r trivial
  inScope h w := h.inScopeOf w.machine.scopes.current w
  inScopeOf _ _ h := h.inScopeOf _
  names _ _ _ _ := trivial

/-- **More fuel changes nothing that is finished.** -/
theorem steadying_relAt {fuel fuel' : Nat} (h : fuel ≤ fuel') : steadying.RelAt fuel fuel' :=
  steadying_lawful.relAt_of_le .outOfFuel h

end Watch

namespace Eval

variable {fuel fuel' : Nat} (hle : fuel ≤ fuel')
include hle

/-- An expression that has a value has the same with more fuel. -/
theorem expression_steady (e : Expr) : Steady (expression fuel e) (expression fuel' e) :=
  ((Watch.steadying_relAt hle).expression e fun _ _ => trivial).steady
    ((Watch.erasesAt fuel).expression e fun _ _ => trivial)

/-- A statement that has been run does the same with more fuel. -/
theorem statement_steady (s : Stmt) : Steady (statement fuel s) (statement fuel' s) :=
  ((Watch.steadying_relAt hle).statement s fun _ _ => trivial).steady
    ((Watch.erasesAt fuel).statement s fun _ _ => trivial)

/-- Statements that have been run do the same with more fuel. -/
theorem block_steady (body : List Stmt) : Steady (block fuel body) (block fuel' body) :=
  ((Watch.steadying_relAt hle).block body fun _ _ => trivial).steady
    ((Watch.erasesAt fuel).block body fun _ _ => trivial)

/-- The arms of a `SWITCH` that have been run do the same with more fuel. -/
theorem cases_steady (condition : Object) (arms : List Case) :
    Steady (cases fuel condition arms) (cases fuel' condition arms) :=
  ((Watch.steadying_relAt hle).cases condition arms fun _ _ => trivial).steady
    ((Watch.erasesAt fuel).cases condition arms fun _ _ => trivial)

/-- **A program that has ended does the same with more fuel.** -/
theorem source_steady (p : Source) : Steady (source fuel p) (source fuel' p) :=
  ((Watch.steadying_relAt hle).source Watch.steadying_lawful (fun _ => trivial)
    fun _ _ => trivial).steady (Watch.source_erases fuel p)

end Eval
end Scriptlet
