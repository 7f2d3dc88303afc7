import Mathlib.Tactic.Common

/-!
# Outcomes of steps with a state

Parsing, checking and running are sequences of steps that change a state and may
fail.  These lemmas take a sequence apart: if it has a result, so has its first step,
and the rest has the result from there.  A step leaves a state behind (`after`) also if
it fails.
-/

namespace Scriptlet

variable {ε σ α β : Type} {s s' : σ}

/-- A sequence has a result if its first step has one, and the rest has one from there. -/
theorem bind_ok {x : EStateM ε σ α} {f : α → EStateM ε σ β} {b : β} :
    (x >>= f) s = .ok b s' ↔ ∃ a s₁, x s = .ok a s₁ ∧ f a s₁ = .ok b s' := by
  show EStateM.bind x f s = _ ↔ _
  unfold EStateM.bind
  constructor
  · intro h
    split at h
    · exact ⟨_, _, ‹_›, h⟩
    · cases h
  · rintro ⟨a, s₁, hx, hf⟩
    rw [hx]
    exact hf

/-- After a result the rest goes on. -/
theorem bind_eq {x : EStateM ε σ α} {a : α} (h : x s = .ok a s') (f : α → EStateM ε σ β) :
    (x >>= f) s = f a s' := by
  show EStateM.bind x f s = _
  rw [EStateM.bind, h]

/-- After an error nothing goes on. -/
theorem bind_eq_error {x : EStateM ε σ α} {e : ε} (h : x s = .error e s') (f : α → EStateM ε σ β) :
    (x >>= f) s = .error e s' := by
  show EStateM.bind x f s = _
  rw [EStateM.bind, h]

/-- Only what the first step does matters. -/
theorem bind_congr_left {x y : EStateM ε σ α} (h : x s = y s') (f : α → EStateM ε σ β) :
    (x >>= f) s = (y >>= f) s' := by
  show EStateM.bind x f s = EStateM.bind y f s'
  rw [EStateM.bind, EStateM.bind, h]

/-- A result leaves the state as it is. -/
theorem pure_ok {a b : α} : (pure a : EStateM ε σ α) s = .ok b s' ↔ a = b ∧ s = s' := by
  show EStateM.Result.ok a s = _ ↔ _
  rw [EStateM.Result.ok.injEq]

/-- The state after a step, however the step ended. -/
def after (x : EStateM ε σ α) (s : σ) : σ :=
  match x s with
  | .ok _ s' => s'
  | .error _ s' => s'

/-- The state after a step that has a result. -/
theorem after_eq {x : EStateM ε σ α} {a : α} (h : x s = .ok a s') : after x s = s' := by
  rw [after, h]

/-- The state after a step that fails. -/
theorem after_eq_of_error {x : EStateM ε σ α} {e : ε} (h : x s = .error e s') : after x s = s' := by
  rw [after, h]

/-- The state after a sequence whose first step has a result. -/
theorem after_bind_ok {x : EStateM ε σ α} {a : α} (h : x s = .ok a s') (f : α → EStateM ε σ β) :
    after (x >>= f) s = after (f a) s' := by
  rw [after, bind_eq h, after]

/-- The state after a sequence whose first step fails. -/
theorem after_bind_error {x : EStateM ε σ α} {e : ε} (h : x s = .error e s')
    (f : α → EStateM ε σ β) : after (x >>= f) s = s' := by
  show (match EStateM.bind x f s with | .ok _ s' => s' | .error _ s' => s') = s'
  rw [EStateM.bind, h]

/-- A step whose result is changed. -/
theorem map_ok {x : EStateM ε σ α} {f : α → β} {b : β} :
    (f <$> x) s = .ok b s' ↔ ∃ a, x s = .ok a s' ∧ f a = b := by
  show EStateM.map f x s = _ ↔ _
  unfold EStateM.map
  constructor
  · intro h
    split at h
    · cases h
      exact ⟨_, ‹_›, rfl⟩
    · cases h
  · rintro ⟨a, hx, rfl⟩
    rw [hx]

/-- A step that leaves the state as it is, and one after it. -/
theorem after_bind_silent {x : EStateM ε σ α} {s : σ} (h : after x s = s) (f : α → EStateM ε σ β) :
    after (x >>= f) s = s ∨ ∃ a, after (x >>= f) s = after (f a) s := by
  cases hx : x s with
  | ok a s' =>
    obtain rfl : s' = s := (after_eq hx).symm.trans h
    exact .inr ⟨a, after_bind_ok hx f⟩
  | error e s' =>
    rw [after, hx] at h
    exact .inl ((after_bind_error hx f).trans h)

/-- A step, and one after it that leaves the state as it is. -/
theorem after_bind_left {x : EStateM ε σ α} {f : α → EStateM ε σ β}
    (h : ∀ a s, after (f a) s = s) (s : σ) : after (x >>= f) s = after x s := by
  cases hx : x s with
  | ok a s' => rw [after_bind_ok hx, after_eq hx, h]
  | error e s' => rw [after_bind_error hx, after_eq_of_error hx]

/-- What a step answers, without the state. -/
def outcome (x : EStateM ε σ α) (s : σ) : Except ε α :=
  match x s with
  | .ok a _ => .ok a
  | .error e _ => .error e

/-- An outcome with another state. -/
def onState (f : σ → σ) : EStateM.Result ε σ α → EStateM.Result ε σ α
  | .ok a s => .ok a (f s)
  | .error e s => .error e (f s)

/-- A change of the state does not change the outcome. -/
theorem outcome_of_onState {x y : EStateM ε σ α} {f : σ → σ} (h : x s = onState f (y s')) :
    outcome x s = outcome y s' := by
  rw [outcome, h, outcome]
  cases y s' <;> rfl

/-- The state is changed whatever the outcome. -/
theorem after_of_onState {x y : EStateM ε σ α} {f : σ → σ} (h : x s = onState f (y s')) :
    after x s = f (after y s') := by
  rw [after, h, after]
  cases y s' <;> rfl

end Scriptlet
