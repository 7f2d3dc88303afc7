import Scriptlet.Proofs.RunSteps

/-!
# Rules for watched runs

`Runs K x Q` says of a watched step what `Steps K x Q` says of a basic one, and that
every moment it records is as it should be.  The rules below follow the ways in which
steps are put together: one after the other, with a record, with a new variable, and in
a scope of their own.
-/

namespace Scriptlet

namespace Plan

variable {K : Plan} {Φ : Signatures} {Γ outer : Env} {frame : Locals}

/-- The plan with a new scope below `parent`. -/
def enter (K : Plan) (parent : ScopeId) : Plan := { K with scopes := K.scopes.enter parent }

/-- Of two lots of variables, the second counts. -/
@[simp] theorem withVars_withVars (K : Plan) (a b : Locals) :
    (K.withVars a).withVars b = K.withVars b := by
  simp [withVars]

/-- The variables that a plan has already change nothing. -/
theorem withVars_self (h : K.At Φ (frame :: outer)) : K.withVars frame = K := by
  obtain ⟨scope, hscope, rfl⟩ := Chain.current_scope h
  rw [withVars, Scopes.withVars_self hscope]

/-- Other variables in the current scope are another first frame. -/
theorem At.withVars (h : K.At Φ (frame :: outer)) (after : Locals) :
    (K.withVars after).At Φ (after :: outer) := Chain.withVars h after

/-- A new scope adds an empty frame. -/
theorem At.enter (h : K.At Φ Γ) : (K.enter K.scopes.current).At Φ (.empty :: Γ) := Chain.enter h

/-- A function sees the globals and not its caller. -/
theorem At.enter_root {globals : Locals} (h : K.At Φ Γ) (hlast : Γ.getLast? = some globals) :
    (K.enter Scopes.root).At Φ [.empty, globals] := by
  obtain ⟨globals', hlast', hroot⟩ := Chain.to_root h
  rw [hlast] at hlast'
  cases hlast'
  exact hroot.enter

end Plan

namespace Setting

variable {S : Setting} {α β : Type} {K : Plan} {Φ : Signatures} {Γ outer : Env} {frame : Locals}

/-- How a watched step may end: with a result and a plan of which `Q` holds, or for a
reason that a well-typed program may have. -/
def Settles (S : Setting) (Q : α → Plan → Prop) : EStateM.Result Halt Watched α → Prop
  | .ok a w => ∃ K, S.State K w ∧ Q a K
  | .error e w => (∃ K, S.State K w) ∧ S.HaltFits w.record e

/-- The second step starts from the state that the first has left. -/
theorem Settles.bind {x : Watch α} {f : α → Watch β} {Q : α → Plan → Prop}
    {R : β → Plan → Prop} {w : Watched} (hx : S.Settles Q (x w))
    (hf : ∀ a K w', Q a K → S.State K w' → S.Settles R (f a w')) :
    S.Settles R ((x >>= f) w) := by
  show S.Settles R (EStateM.bind x f w)
  rw [EStateM.bind]
  revert hx
  cases x w with
  | ok a w' => exact fun ⟨K, hw', hQ⟩ => hf a K w' hQ hw'
  | error e w' => exact fun hx => hx

/-- What a watched step does from states that agree with a plan. -/
def Runs (S : Setting) (K : Plan) (x : Watch α) (Q : α → Plan → Prop) : Prop :=
  ∀ w, S.State K w → S.Settles Q (x w)

/-- A watched step after which the plan is the same. -/
def Yields (S : Setting) (K : Plan) (x : Watch α) (P : α → Prop) : Prop :=
  S.Runs K x fun a K' => K' = K ∧ P a

namespace Runs

variable {x : Watch α} {Q R : α → Plan → Prop}

/-- A result, and the plan is as before. -/
theorem pure {a : α} (h : Q a K) : S.Runs K (pure a) Q := fun _ hw => ⟨K, hw, h⟩

/-- A weaker statement about the result. -/
theorem imp (h : S.Runs K x Q) (hQR : ∀ a K', Q a K' → R a K') : S.Runs K x R := by
  intro w hw
  have hx := h w hw
  revert hx
  cases x w with
  | ok a w' => exact fun ⟨K', hw', hQ⟩ => ⟨K', hw', hQR a K' hQ⟩
  | error e w' => exact fun hx => hx

/-- The second step starts with the plan that the first has left. -/
theorem bind {f : α → Watch β} {R : β → Plan → Prop} (hx : S.Runs K x Q)
    (hf : ∀ a K', Q a K' → S.Runs K' (f a) R) : S.Runs K (x >>= f) R := fun w hw =>
  (hx w hw).bind fun a K' w' hQ hw' => hf a K' hQ w' hw'

/-- What is known about the state may be used. -/
theorem of_state (h : ∀ w, S.State K w → S.Runs K x Q) : S.Runs K x Q := fun w hw => h w hw w hw

/-- A basic step records nothing. -/
theorem basic {x : Eval α} (h : S.Steps K x Q) : S.Runs K (Watch.basic x) Q := by
  intro w hw
  have hx := h w.machine w.origins hw.agrees
  unfold Watch.basic
  revert hx
  cases x w.machine with
  | ok a m =>
    rintro ⟨K', ha, hQ⟩
    have hstate : S.State K' { w with machine := m } := ⟨ha, hw.record⟩
    exact ⟨K', hstate.note trivial, hQ⟩
  | error e m =>
    rintro ⟨⟨K', ha⟩, hhalt⟩
    exact ⟨⟨K', ha, hw.record⟩, hhalt w.record⟩

end Runs

namespace Yields

variable {x : Watch α} {P P' : α → Prop}

/-- A result, without a change. -/
theorem pure {a : α} (h : P a) : S.Yields K (pure a) P := Runs.pure ⟨rfl, h⟩

/-- A weaker statement about the result. -/
theorem imp (h : S.Yields K x P) (hP : ∀ a, P a → P' a) : S.Yields K x P' :=
  Runs.imp h fun a _ ha => ⟨ha.1, hP a ha.2⟩

/-- After a step that changes no plan, the next starts with the same plan. -/
theorem bind {f : α → Watch β} {Q : β → Plan → Prop} (hx : S.Yields K x P)
    (hf : ∀ a, P a → S.Runs K (f a) Q) : S.Runs K (x >>= f) Q := by
  refine Runs.bind hx ?_
  rintro a _ ⟨rfl, ha⟩
  exact hf a ha

/-- A basic step that changes no plan. -/
theorem basic {x : Eval α} (h : S.Reads K x P) : S.Yields K (Watch.basic x) P := Runs.basic h

/-- A record that is as it should be. -/
theorem note {event : Event} (h : S.EventFits event) :
    S.Yields K (Watch.note event) fun _ => True := fun _ hw =>
  ⟨K, hw.note h, rfl, trivial⟩

/-- A step for each element of a list. -/
theorem forM {γ : Type} {f : γ → Watch Unit} (h : ∀ c, S.Yields K (f c) fun _ => True)
    (l : List γ) : S.Yields K (l.forM f) fun _ => True := by
  induction l with
  | nil => exact .pure trivial
  | cons c l ih => exact (h c).bind fun _ _ => ih

end Yields

/-- The value of an expression has the type that is noted for it. -/
theorem Runs.valued {e : Expr} {ty : Ty} {x : Watch Object} {Q : Object → Plan → Prop}
    (h : S.Runs K x Q) (hnote : S.notes.type e.id ty)
    (hfits : ∀ o K', Q o K' → S.Fits ty o.value) : S.Runs K (Watch.valued e x) Q := by
  refine h.bind fun o K' hQ => ?_
  have hevent : S.EventFits (.value e o) := ⟨ty, hnote, hfits o K' hQ⟩
  exact (Yields.note hevent).bind fun _ _ => .pure hQ

/-! ### Variables -/

/-- A new variable is defined in the run, with its origin, and in the plan. -/
theorem Steps.defineVariable {v : Variable Unit} {v' : Variable Object}
    {w : Watched} {origin : Origin} (hw : S.State K w) (hΓ : K.At Φ (frame :: outer))
    (hname : v.name = v'.name) (hfree : frame.find? v.name = none) (hholds : S.Holds v v')
    (horigin : S.ComesFrom v origin) :
    ∃ scopes origins, w.machine.scopes.defineVariable v' = .ok scopes ∧
      w.origins.defineVariable ⟨v'.name, v'.ty, v'.mutable, origin⟩ = .ok origins ∧
        S.Agrees (K.withVars (frame.insert v.name v)) { w.machine with scopes := scopes }
          origins := by
  have hdefine : K.scopes.defineVariable v =
      .ok (K.scopes.withVars (frame.insert v.name v)) := by
    rw [Chain.defineVariable hΓ, hfree]
  obtain ⟨scopes, hscopes, halike⟩ := hw.agrees.scopes.defineVariable hname hholds hdefine
  have hplaced : S.ComesFrom v (Variable.mk v'.name v'.ty v'.mutable origin).value := horigin
  obtain ⟨origins, horigins, halike'⟩ := hw.agrees.origins.defineVariable hname hplaced hdefine
  exact ⟨scopes, origins, hscopes, horigins, halike, halike', hw.agrees.heap, hw.agrees.cells⟩

/-- A variable is defined under a name that is free in the frame. -/
theorem Runs.defineVariable {v : Variable Unit} {v' : Variable Object} {origin : Origin}
    (hΓ : K.At Φ (frame :: outer)) (hname : v.name = v'.name) (hfree : frame.find? v.name = none)
    (hholds : S.Holds v v') (horigin : S.ComesFrom v origin) :
    S.Runs K (Watch.defineVariable origin v') fun _ K' =>
      K' = K.withVars (frame.insert v.name v) := by
  intro w hw
  obtain ⟨scopes, origins, hscopes, horigins, hagrees⟩ :=
    Steps.defineVariable hw hΓ hname hfree hholds horigin
  have hrun : Watch.defineVariable origin v' w =
      .ok () ⟨{ w.machine with scopes := scopes }, origins,
        ⟨{ w.machine with scopes := scopes }, origins, .step⟩ :: w.record⟩ := by
    show Watch.basic (Eval.defineVariable v') { w with
      origins := (w.origins.defineVariable _).toOption.getD w.origins } = _
    rw [horigins, Watch.basic, Eval.defineVariable, hscopes]
    rfl
  have hstate : S.State (K.withVars (frame.insert v.name v))
      ⟨{ w.machine with scopes := scopes }, origins, w.record⟩ := ⟨hagrees, hw.record⟩
  rw [hrun]
  exact ⟨_, hstate.note trivial, rfl⟩

/-! ### Scopes -/

/-- Scopes are closed in the run and in the plan. -/
theorem State.leave {w : Watched} (hw : S.State K w) (frame : Frame) :
    S.State { K with scopes := K.scopes.leave frame } { w with
      machine := { w.machine with scopes := w.machine.scopes.leave frame }
      origins := w.origins.leave frame } where
  agrees := ⟨hw.agrees.scopes.leave frame, hw.agrees.origins.leave frame, hw.agrees.heap,
    hw.agrees.cells⟩
  record := hw.record

/-- A scope is opened in the run and in the plan, below the same one. -/
theorem State.enter {w : Watched} (hw : S.State K w) (parent : ScopeId) :
    S.State (K.enter parent) { w with
      machine := { w.machine with scopes := w.machine.scopes.enter parent }
      origins := w.origins.enter parent } where
  agrees := ⟨hw.agrees.scopes.enter (Table.Alike.empty _) parent,
    hw.agrees.origins.enter trivial parent, hw.agrees.heap, hw.agrees.cells⟩
  record := hw.record

/-- What a step declares in a scope of its own is forgotten with the scope. -/
theorem Yields.inScopeOf {x : Watch α} {P : α → Prop} (parent : ScopeId)
    (hx : S.Runs (K.enter parent) x fun a K' =>
      (∃ after, K' = (K.enter parent).withVars after) ∧ P a) :
    S.Yields K (Watch.inScopeOf parent x) P := by
  intro w hw
  have h := hx _ (hw.enter parent)
  have hframe : w.machine.scopes.frame = K.scopes.frame := by
    rw [Scopes.frame, Scopes.frame, hw.agrees.scopes.current, hw.agrees.scopes.depth]
  have hframe' : w.origins.frame = K.scopes.frame := by
    rw [Scopes.frame, Scopes.frame, hw.agrees.origins.current, hw.agrees.origins.depth]
  unfold Watch.inScopeOf
  rw [hframe, hframe']
  revert h
  cases x _ with
  | ok a w' =>
    rintro ⟨_, hw', ⟨after, rfl⟩, hP⟩
    refine ⟨K, ?_, rfl, hP⟩
    have hleave := hw'.leave K.scopes.frame
    have hscopes : ((K.enter parent).withVars after).scopes.leave K.scopes.frame = K.scopes :=
      K.scopes.leave_withVars_enter parent after
    rw [hscopes] at hleave
    exact hleave
  | error e w' =>
    rintro ⟨⟨K', hw'⟩, hhalt⟩
    exact ⟨⟨_, hw'.leave K.scopes.frame⟩, hhalt⟩

/-- A step in a scope of its own, which is closed again, so the plan is as before. -/
theorem Yields.inScope {x : Watch α} {P : α → Prop}
    (hx : S.Runs (K.enter K.scopes.current) x fun a K' =>
      (∃ after, K' = (K.enter K.scopes.current).withVars after) ∧ P a) :
    S.Yields K (Watch.inScope x) P := by
  intro w hw
  unfold Watch.inScope
  rw [← hw.agrees.scopes.current]
  exact Yields.inScopeOf K.scopes.current hx w hw

end Setting
end Scriptlet
