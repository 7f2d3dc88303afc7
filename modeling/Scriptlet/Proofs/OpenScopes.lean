import Scriptlet.Proofs.Arity
import Scriptlet.Proofs.Blind

/-!
# Sessions with open scopes

The embedding program may open scopes of its own between requests, and leave them in stack
order.  A function that is defined in the meantime sees the current scope, or one that is older.

| what is done | the scopes stay nested, for |
| --- | --- |
| a scope is opened below an open one | it holds no function |
| scopes are left | a function is left with all scopes younger than its own |
| a request is made | it closes the scopes that it opens, and calls functions in open scopes |

So in a session functions see open scopes, between requests and in the midst of them
(`Machine.InSession.anchored`, `Machine.InSession.anchored_of_meets`): the states of sessions are
anchored, as those of runs are.
-/

namespace Scriptlet

/-- What a function sees is not younger than scope `i`. -/
def Routine.SeesUpTo (i : ScopeId) (r : Routine Body) : Prop :=
  ∀ decl closure, r.body = .declared decl closure → closure ≤ i

namespace Scopes

/-- Functions are in scopes before `d`, which are open, and see no scope that is younger than
their own. -/
structure Nested (d : Nat) (s : Scopes Object Body) : Prop where
  wellFormed : s.WellFormed
  le : d ≤ s.depth
  functions : ∀ i key r, s.functionAt i key = some r → i < d ∧ r.SeesUpTo i

namespace Nested

variable {d : Nat} {s s' : Scopes Object Body}

/-- In nested scopes functions see open scopes. -/
theorem anchored (h : s.Nested d) : s.Anchored where
  wellFormed := h.wellFormed
  closure i key r hr decl closure hbody := by
    obtain ⟨hi, hsees⟩ := h.functions i key r hr
    exact Nat.lt_of_le_of_lt (hsees decl closure hbody) (Nat.lt_of_lt_of_le hi h.le)

/-- No scope is opened or closed, and no function defined. -/
theorem of_kept {declares : Bool} (h : s.Nested d) (hkept : Kept declares s s')
    (hfunctions : ∀ i key, s'.functionAt i key = s.functionAt i key) : s'.Nested d where
  wellFormed := h.wellFormed.kept hkept
  le := by rw [hkept.depth]; exact h.le
  functions i key r hr := h.functions i key r (hfunctions i key ▸ hr)

/-- A function is defined in a scope before `d` and sees nothing younger. -/
theorem defineFunction (h : s.Nested d) (hcurrent : s.current < d) {r : Routine Body}
    (hr : r.SeesUpTo s.current) (hdefine : s.defineFunction r = .ok s') : s'.Nested d where
  wellFormed := h.wellFormed.kept (.defineFunction hdefine)
  le := by rw [(Kept.defineFunction hdefine).depth]; exact h.le
  functions i key r' hr' := by
    rcases functionAt_of_defineFunction hdefine hr' with ⟨rfl, rfl⟩ | hold
    · exact ⟨hcurrent, hr⟩
    · exact h.functions i key r' hold

/-- A scope is opened below an open one. -/
theorem enter (h : s.Nested d) {parent : ScopeId} (hparent : parent < s.depth) :
    (s.enter parent).Nested d where
  wellFormed := h.wellFormed.enter hparent
  le := by rw [depth_enter]; exact Nat.le_succ_of_le h.le
  functions i key r hr := h.functions i key r (functionAt_enter s parent i key ▸ hr)

/-- The scopes are left that were opened since `s`. -/
theorem leave (h : s.Nested d) {parent : ScopeId} (h' : s'.Nested d)
    (hkept : Kept true (s.enter parent) s') : (s'.leave s.frame).Nested d where
  wellFormed := h.wellFormed.kept (Kept.leave hkept)
  le := by rw [(Kept.leave hkept).depth]; exact h.le
  functions i key r hr := h'.functions i key r (functionAt_of_leave hr)

/-- More scopes count as open. -/
theorem extend (h : s.Nested d) : s.Nested s.depth :=
  ⟨h.wellFormed, Nat.le_refl _, fun i key r hr =>
    ⟨Nat.lt_of_lt_of_le (h.functions i key r hr).1 h.le, (h.functions i key r hr).2⟩⟩

/-- Scopes are left down to some depth, and functions in them are gone. -/
theorem cut (h : s.Nested d) {frame : Frame} (hprevious : frame.previous < frame.depth)
    (hdepth : frame.depth ≤ s.depth) : (s.leave frame).Nested frame.depth where
  wellFormed := h.wellFormed.leave hprevious hdepth
  le := Nat.le_of_eq (List.length_take.trans (Nat.min_eq_left hdepth)).symm
  functions i key r hr := by
    refine ⟨?_, (h.functions i key r (functionAt_of_leave hr)).2⟩
    rw [functionAt, Kept.scopes_leave] at hr
    split at hr
    · assumption
    · cases hr

end Nested
end Scopes

/-- The scopes stay nested, and what is called sees scopes before `d`. -/
def Regime.nested (d : Nat) : Regime where
  Holds m := m.scopes.Nested d
  Change declares m m' := Scopes.Kept declares m.scopes m'.scopes
  Callable r := ∀ decl closure, r.body = .declared decl closure → closure < d

/-- Runs keep scopes nested: they define functions in the root, and open scopes below open ones. -/
theorem Regime.nested_lawful {d : Nat} (hd : 0 < d) : (Regime.nested d).Lawful where
  refl m := .refl m.scopes
  trans h h' := h.trans h'
  weaken h := h.weaken
  frame h := h.frame
  close frame _ _ hcurrent h := .close frame hcurrent h
  callable hm hr decl closure hbody := by
    obtain ⟨i, hat⟩ := Scopes.functionAt_of_findFunction? hr
    obtain ⟨hi, hsees⟩ := hm.functions i _ _ hat
    exact Nat.lt_of_le_of_lt (hsees decl closure hbody) hi
  declare h hm :=
    ⟨hm.of_kept (.defineVariable h) (Scopes.functionAt_defineVariable h), .defineVariable h⟩
  function {m f _ _ _} hroot h hm := by
    have hcurrent : m.scopes.current < d := hroot ▸ hd
    refine ⟨hm.defineFunction hcurrent (fun decl closure hbody => ?_) h, .defineFunction h⟩
    cases hbody
    exact Nat.le_refl _
  assign _ _ h hm := ⟨hm.of_kept (.assign h) (Scopes.functionAt_assign h), .assign h⟩
  alloc m _ hm := ⟨hm, .refl m.scopes⟩
  write m _ _ _ hm := ⟨hm, .refl m.scopes⟩
  native {m} _ _ _ _ _ _ _ _ hm := ⟨hm, .refl m.scopes⟩
  print m _ hm := ⟨hm, .refl m.scopes⟩
  scope {m parent} hm hparent := by
    have hlt : parent < m.scopes.depth := by
      rcases hparent with rfl | ⟨r, decl, hr, hbody⟩
      · exact hm.wellFormed.current
      · exact Nat.lt_of_lt_of_le (hr decl parent hbody) hm.le
    exact ⟨hm.enter hlt, fun m' hm' hkept => hm.leave hm' hkept⟩

/-! ### Acts -/

namespace Act

/-- A function that the act defines sees no scope that is younger than the current one, and
programs are run from the root. -/
def Encloses (m : Machine) : Act → Prop
  | ask _ (.defineFunction r) => r.SeesUpTo m.scopes.current
  | ask _ (.run _) => m.scopes.current = Scopes.root
  | _ => True

variable {act : Act} {m m₁ : Machine}

open Regime in
/-- **An act keeps the scopes nested**, and none of its functions gets out of a scope that was
open before it. -/
theorem watched_nested (hm : m.scopes.Nested m.scopes.depth) (hact : act.Encloses m) :
    (nested m.scopes.depth).Passes true ⟨m, .ofBuiltins [], []⟩
      (act.watched ⟨m, .ofBuiltins [], []⟩) := by
  have hG := nested_lawful hm.wellFormed.depth_pos
  cases act with
  | makeList elements =>
    exact (Obeys.basic hG (allocList_steps hG elements)).weaken hG _ hm
  | ask fuel request =>
    refine Request.watched_passes (w := ⟨m, .ofBuiltins [], []⟩) hG hm (fun r hr => ?_)
      (fun p hp => ?_) fuel
    · subst hr
      exact defineFunction_allows hG fun hdefine _ =>
        ⟨hm.defineFunction hm.wellFormed.current hact hdefine, .defineFunction hdefine⟩
    · subst hp
      exact hact

/-- After an act the same scopes are open. -/
theorem perform_kept (hm : m.scopes.Nested m.scopes.depth) (hact : act.Encloses m) :
    Scopes.Kept true m.scopes (act.perform m).scopes :=
  watched_machine ⟨m, .ofBuiltins [], []⟩ act ▸ (watched_nested hm hact).change

/-- After an act the scopes are nested as before. -/
theorem perform_nested (hm : m.scopes.Nested m.scopes.depth) (hact : act.Encloses m) :
    (act.perform m).scopes.Nested m.scopes.depth :=
  watched_machine ⟨m, .ofBuiltins [], []⟩ act ▸ (watched_nested hm hact).holds

/-- After an act everything is stored under its own name. -/
theorem perform_keyed (hm : m.scopes.Keyed) (hact : act.Encloses m) :
    (act.perform m).scopes.Keyed := by
  cases act with
  | makeList elements => exact hm
  | ask fuel request =>
    have hpasses := Request.watched_keyed (w := ⟨m, .ofBuiltins [], []⟩) hm fuel request
      fun p hp => by subst hp; exact hact
    rw [perform, ← Request.watched_machine fuel ⟨m, .ofBuiltins [], []⟩]
    exact hpasses.holds

/-- **Whatever is met in an act is anchored.** -/
theorem Meets.anchored (h : act.Meets m m₁) (hm : m.scopes.Nested m.scopes.depth)
    (hact : act.Encloses m) : m₁.scopes.Anchored := by
  rcases h with rfl | rfl | ⟨moment, hmoment, rfl⟩
  · exact hm.anchored
  · exact (perform_nested hm hact).anchored
  · rcases (watched_nested hm hact).record moment hmoment with hnone | hholds
    · cases hnone
    · exact hholds.anchored

end Act

/-! ### Sessions -/

/-- The states of a session between its acts, with the frames that can still be left.  Scopes are
opened below open ones.  They are left in stack order; some frames may be forgotten. -/
inductive Machine.InSession : Machine → List Frame → Prop where
  | start (limit : Option Nat) : InSession (.start limit) []
  | enter {m : Machine} {frames : List Frame} {parent : ScopeId} : InSession m frames →
    parent < m.scopes.depth → InSession (m.enter parent) (m.scopes.frame :: frames)
  | leave {m : Machine} {frames frames' : List Frame} {frame : Frame} {forgotten : Nat} :
    InSession m frames → frames.drop forgotten = frame :: frames' →
      InSession (m.leave frame) frames'
  | perform {m : Machine} {frames : List Frame} {act : Act} : InSession m frames →
    act.Encloses m → InSession (act.perform m) frames

namespace Machine.InSession

variable {m : Machine} {frames : List Frame}

/-- **In a session the scopes are nested**, and the frames can be left. -/
theorem nested (h : m.InSession frames) :
    m.scopes.Nested m.scopes.depth ∧ (Scopes.Session.mk m.scopes frames).Sound := by
  induction h with
  | start limit =>
    refine ⟨⟨.ofBuiltins _, Nat.le_refl _, fun i key r hr => ⟨?_, ?_⟩⟩, .start _⟩
    · obtain ⟨scope, hscope, -⟩ := Option.bind_eq_some_iff.1 hr
      exact (List.getElem?_eq_some_iff.1 hscope).1
    · intro decl closure hbody
      rw [Machine.functionAt_start hr] at hbody
      cases hbody
  | enter _ hparent ih => exact ⟨(ih.1.enter hparent).extend, ih.2.enter hparent⟩
  | @leave m frames frames' frame forgotten _ hdrop ih =>
    obtain ⟨hnested, hsound⟩ := ih
    have hmem : frame ∈ frames := List.mem_of_mem_drop (hdrop ▸ List.mem_cons_self)
    obtain ⟨hprevious, hdepth⟩ := hsound.frames frame hmem
    have hallowed : (Scopes.Session.mk m.scopes frames).Allows (.leave forgotten) := by
      refine Nat.lt_of_not_le fun hle => ?_
      rw [List.drop_eq_nil_of_le hle] at hdrop
      cases hdrop
    have hleft := hsound.leave hallowed
    rw [Scopes.Session.perform, hdrop] at hleft
    exact ⟨(hnested.cut hprevious hdepth).extend, hleft⟩
  | perform _ hact ih =>
    obtain ⟨hnested, hsound⟩ := ih
    exact ⟨(Act.perform_nested hnested hact).extend,
      hsound.of_kept (Act.perform_kept hnested hact) (Act.perform_keyed hsound.keyed hact)⟩

/-- **In a session functions see open scopes**, between its acts. -/
theorem anchored (h : m.InSession frames) : m.scopes.Anchored := h.nested.1.anchored

/-- A function that is defined in a scope of the embedding program may see that scope. -/
example (f : FunctionDecl) (tys : List Ty) :
    ((Act.ask 0 (.defineFunction (.named f.name tys .nil (.declared f 1)))).perform
      ((Machine.start none).enter Scopes.root)).InSession [⟨Scopes.root, 1⟩] :=
  .perform (.enter (.start none) (by decide)) fun _ _ hbody => by
    cases hbody
    decide

/-- **In a session functions see open scopes**, also in the midst of an act. -/
theorem anchored_of_meets (h : m.InSession frames) {act : Act} (hact : act.Encloses m)
    {m₁ : Machine} (hmeets : act.Meets m m₁) : m₁.scopes.Anchored :=
  hmeets.anchored h.nested.1 hact

end Machine.InSession
end Scriptlet
