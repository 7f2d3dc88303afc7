import Scriptlet.Proofs.Fuel
import Scriptlet.Proofs.Regime

/-!
# With enough fuel

What finishes does the same with more fuel, so a step that is given for every amount of fuel
has at most one result that is not for want of fuel: its `limit`.  There is none if the step
goes on for ever.

Limits can be calculated with.  The limit of two steps one after the other is that of the
second, started where the first one ends (`limit_bind`), and neither the amounts of fuel nor
how they are shared matters.
-/

namespace Scriptlet

variable {α β : Type}

/-- What a step answers, and the state that it leaves. -/
abbrev Ending (α : Type) := EStateM.Result Halt Machine α

/-- Where the step finishes, it does the same with more fuel. -/
def Growing (x : Nat → Eval α) : Prop :=
  ∀ fuel fuel', fuel ≤ fuel' → Steady (x fuel) (x fuel')

open Classical in
/-- How the step ends with enough fuel, if it does. -/
noncomputable def limit (x : Nat → Eval α) (m : Machine) : Option (Ending α) :=
  if h : ∃ fuel, Finished (x fuel m) then some (x h.choose m) else none

/-- A change of the state changes nothing about the end. -/
theorem finished_onState {f : Machine → Machine} {r : Ending α} :
    Finished (onState f r) ↔ Finished r := by
  cases r with
  | ok a m => exact ⟨fun _ => nofun, fun _ => nofun⟩
  | error e m =>
    constructor
    all_goals
      intro h m' heq
      cases heq
      exact h _ rfl

namespace Growing

variable {x : Nat → Eval α}

/-- A step that takes no fuel. -/
theorem const (y : Eval α) : Growing fun _ => y := fun _ _ _ => .refl y

/-- A step that is given more fuel. -/
theorem shift (h : Growing x) (k : Nat) : Growing fun fuel => x (fuel + k) := fun _ _ hle =>
  h _ _ (Nat.add_le_add_right hle k)

/-- One step after the other, with the same fuel. -/
theorem bind (h : Growing x) {g : Nat → α → Eval β} (hg : ∀ a, Growing fun fuel => g fuel a) :
    Growing fun fuel => x fuel >>= g fuel := fun _ _ hle =>
  (h _ _ hle).bind fun a => hg a _ _ hle

/-- A step in a scope of its own. -/
theorem inScope (h : Growing x) : Growing fun fuel => Eval.inScope (x fuel) := fun _ _ hle =>
  (h _ _ hle).inScope

/-- Either of two steps. -/
theorem ite {y : Nat → Eval α} (h : Growing x) (h' : Growing y) (b : Bool) :
    Growing fun fuel => if b then x fuel else y fuel := fun _ _ hle =>
  (h _ _ hle).ite (h' _ _ hle)

/-- An expression finishes with more fuel as with less. -/
theorem expression (e : Expr) : Growing fun fuel => Eval.expression fuel e := fun _ _ hle =>
  Eval.expression_steady hle e

/-- A statement finishes with more fuel as with less. -/
theorem statement (s : Stmt) : Growing fun fuel => Eval.statement fuel s := fun _ _ hle =>
  Eval.statement_steady hle s

/-- A block finishes with more fuel as with less. -/
theorem block (body : List Stmt) : Growing fun fuel => Eval.block fuel body := fun _ _ hle =>
  Eval.block_steady hle body

/-- Arms finish with more fuel as with less. -/
theorem cases (condition : Object) (arms : List Case) :
    Growing fun fuel => Eval.cases fuel condition arms := fun _ _ hle =>
  Eval.cases_steady hle condition arms

/-- Two results that are finished are the same. -/
theorem unique (h : Growing x) {m : Machine} {fuel fuel' : Nat} (hfuel : Finished (x fuel m))
    (hfuel' : Finished (x fuel' m)) : x fuel m = x fuel' m := by
  rcases Nat.le_total fuel fuel' with hle | hle
  · exact (h _ _ hle m hfuel).symm
  · exact h _ _ hle m hfuel'

end Growing

section Limit

variable {x : Nat → Eval α} {m : Machine}

/-- **The limit is what the step answers with some amount of fuel.** -/
theorem limit_eq_some_iff (h : Growing x) {r : Ending α} :
    limit x m = some r ↔ Finished r ∧ ∃ fuel, x fuel m = r := by
  unfold limit
  split
  · rename_i hex
    rw [Option.some.injEq]
    constructor
    · rintro rfl
      exact ⟨hex.choose_spec, _, rfl⟩
    · rintro ⟨hr, fuel, rfl⟩
      exact h.unique hex.choose_spec hr
  · rename_i hnone
    refine ⟨nofun, ?_⟩
    rintro ⟨hr, fuel, rfl⟩
    exact absurd ⟨fuel, hr⟩ hnone

/-- There is no limit if the step goes on for ever. -/
theorem limit_eq_none_iff : limit x m = none ↔ ∀ fuel, ¬ Finished (x fuel m) := by
  unfold limit
  split
  · rename_i hex
    exact iff_of_false nofun fun hnone => hnone _ hex.choose_spec
  · rename_i hnone
    exact iff_of_true rfl fun fuel hfuel => hnone ⟨fuel, hfuel⟩

/-- Any fuel that is enough gives the limit. -/
theorem limit_eq_of_finished (h : Growing x) {fuel : Nat} (hfuel : Finished (x fuel m)) :
    limit x m = some (x fuel m) := (limit_eq_some_iff h).2 ⟨hfuel, fuel, rfl⟩

/-- The same results, up to their states. -/
theorem limit_map {y : Nat → Eval α} {m' : Machine} {f g : Machine → Machine} (hx : Growing x)
    (hy : Growing y) (h : ∀ fuel, onState f (x fuel m) = onState g (y fuel m')) :
    (limit x m).map (onState f) = (limit y m').map (onState g) := by
  have hfinished : ∀ fuel, Finished (x fuel m) ↔ Finished (y fuel m') := fun fuel => by
    rw [← finished_onState (f := f), h fuel, finished_onState]
  cases hlimit : limit x m with
  | none =>
    have hnone : limit y m' = none := limit_eq_none_iff.2 fun fuel hfuel =>
      limit_eq_none_iff.1 hlimit fuel ((hfinished fuel).2 hfuel)
    rw [hnone]
    rfl
  | some r =>
    obtain ⟨hr, fuel, rfl⟩ := (limit_eq_some_iff hx).1 hlimit
    rw [limit_eq_of_finished hy ((hfinished fuel).1 hr)]
    exact congrArg some (h fuel)

/-- A state that is not changed. -/
theorem map_onState_id (r : Option (Ending α)) : r.map (onState id) = r := by
  match r with
  | none => rfl
  | some (.ok a m) => rfl
  | some (.error e m) => rfl

/-- The same results, but with another state. -/
theorem limit_onState {y : Nat → Eval α} {m' : Machine} {f : Machine → Machine} (hx : Growing x)
    (hy : Growing y) (h : ∀ fuel, y fuel m' = onState f (x fuel m)) :
    limit y m' = (limit x m).map (onState f) := by
  rw [limit_map hx hy (g := id) fun fuel => by rw [← h]; cases y fuel m' <;> rfl, map_onState_id]

/-- Steps that are the same from a state have the same limit there. -/
theorem limit_congr {y : Nat → Eval α} (hx : Growing x) (hy : Growing y)
    (h : ∀ fuel, y fuel m = x fuel m) : limit y m = limit x m := by
  rw [limit_onState (f := id) hx hy fun fuel => by rw [h]; cases x fuel m <;> rfl, map_onState_id]

/-- A little more fuel each time does not matter. -/
theorem limit_shift (h : Growing x) (k : Nat) : limit (fun fuel => x (fuel + k)) m = limit x m := by
  cases hlimit : limit x m with
  | none => exact limit_eq_none_iff.2 fun fuel => limit_eq_none_iff.1 hlimit (fuel + k)
  | some r =>
    obtain ⟨hr, fuel, rfl⟩ := (limit_eq_some_iff h).1 hlimit
    exact (limit_eq_some_iff (h.shift k)).2 ⟨hr, fuel, h _ _ (Nat.le_add_right fuel k) m hr⟩

end Limit

/-! ### One step after the other -/

/-- Goes on from where a step has ended. -/
def Ending.andThen (r : Option (Ending α)) (next : α → Machine → Option (Ending β)) :
    Option (Ending β) :=
  match r with
  | none => none
  | some (.ok a m) => next a m
  | some (.error e m) => some (.error e m)

/-- **The limit of two steps**, one after the other. -/
theorem limit_bind {x : Nat → Eval α} {g : Nat → α → Eval β} {m : Machine} (hx : Growing x)
    (hg : ∀ a, Growing fun fuel => g fuel a) :
    limit (fun fuel => x fuel >>= g fuel) m =
      Ending.andThen (limit x m) fun a m₁ => limit (fun fuel => g fuel a) m₁ := by
  have hbind := hx.bind hg
  cases hlimit : limit x m with
  | none =>
    refine limit_eq_none_iff.2 fun fuel hfinished => ?_
    refine limit_eq_none_iff.1 hlimit fuel fun m' hout => ?_
    exact hfinished m' (bind_eq_error hout _)
  | some r =>
    obtain ⟨hr, fuel, hfuel⟩ := (limit_eq_some_iff hx).1 hlimit
    cases r with
    | error e m₁ =>
      exact (limit_eq_some_iff hbind).2 ⟨fun m' h => hr m' (by cases h; rfl), fuel,
        bind_eq_error hfuel _⟩
    | ok a m₁ =>
      -- with more fuel the first step ends where it did
      have hmore : ∀ fuel', fuel ≤ fuel' → (x fuel' >>= g fuel') m = g fuel' a m₁ :=
        fun fuel' hle => bind_eq ((hx _ _ hle m (by rw [hfuel]; exact hr)).trans hfuel) _
      show _ = limit (fun fuel => g fuel a) m₁
      cases hnext : limit (fun fuel => g fuel a) m₁ with
      | none =>
        refine limit_eq_none_iff.2 fun fuel' hfinished => ?_
        have hlarge : (x (max fuel fuel') >>= g (max fuel fuel')) m = (x fuel' >>= g fuel') m :=
          hbind _ _ (Nat.le_max_right fuel fuel') m hfinished
        rw [hmore _ (Nat.le_max_left fuel fuel')] at hlarge
        exact limit_eq_none_iff.1 hnext (max fuel fuel') (hlarge ▸ hfinished)
      | some r' =>
        obtain ⟨hr', fuel', hfuel'⟩ := (limit_eq_some_iff (hg a)).1 hnext
        refine (limit_eq_some_iff hbind).2 ⟨hr', max fuel fuel', ?_⟩
        rw [hmore _ (Nat.le_max_left fuel fuel')]
        subst hfuel'
        exact hg a _ _ (Nat.le_max_right fuel fuel') m₁ hr'

end Scriptlet
