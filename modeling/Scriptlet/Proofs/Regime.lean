import Scriptlet.Proofs.Walk

/-!
# Regimes

A regime says what a run keeps: a property that all its states have, how its steps may
change a state, and which functions it may call.  Whether a regime is lawful can be seen
from the basic steps alone.

| law | step |
| --- | --- |
| `declare`, `assign` | a variable is declared, or gets another value |
| `alloc`, `write`, `native` | lists are made or changed |
| `print` | something is printed |
| `scope` | steps are made in a scope of their own, which is closed after them |
| `function` | a function is defined in the root |

Under a lawful regime every part of a program, with whatever outcome, changes the state
as the regime allows, and every moment that is recorded meanwhile has its property and is
changed until the end as the regime allows, once the scopes opened since the start are closed
(`obeysAt`, `source_obeys`).  Only a local declaration may declare variables in the scope
in which it runs; every other statement declares in scopes of its own.

That this is so is shown by the walk in `Walk`, once for watched runs (`Regime.watching`) and
once for runs that are not watched (`Regime.stepping`).
-/

namespace Scriptlet

namespace Machine

/-- The state after a scope below `parent` was opened. -/
def enter (m : Machine) (parent : ScopeId) : Machine := { m with scopes := m.scopes.enter parent }

/-- The state after the scopes opened since `frame` were closed. -/
def leave (m : Machine) (frame : Frame) : Machine := { m with scopes := m.scopes.leave frame }

/-- No scope was opened. -/
theorem leave_of_frame_eq {m : Machine} {frame : Frame} (h : m.scopes.frame = frame) :
    m.leave frame = m := by
  subst h
  simp [leave, Scopes.leave, Scopes.frame, Scopes.depth]

/-- Scopes that are closed at once may be closed in two steps. -/
theorem leave_leave (m : Machine) {inner outer : Frame} (h : outer.depth ≤ inner.depth) :
    (m.leave inner).leave outer = m.leave outer := by
  simp [leave, Scopes.leave, List.take_take, Nat.min_eq_left h]

end Machine

/-- A step in a scope of its own, without the scope. -/
theorem inScopeOf_eq {α : Type} (parent : ScopeId) (x : Eval α) (m : Machine) :
    Eval.inScopeOf parent x m = onState (·.leave m.scopes.frame) (x (m.enter parent)) := by
  unfold Eval.inScopeOf Machine.enter
  cases x { m with scopes := m.scopes.enter parent } <;> rfl

/-- A watched step in a scope of its own, without the scope. -/
theorem Watch.inScopeOf_eq {α : Type} (parent : ScopeId) (x : Watch α) (w : Watched) :
    Watch.inScopeOf parent x w =
      onState (fun w' => ⟨w'.machine.leave w.machine.scopes.frame,
        w'.origins.leave w.origins.frame, w'.record⟩)
          (x ⟨w.machine.enter parent, w.origins.enter parent, w.record⟩) := by
  unfold Watch.inScopeOf Machine.enter
  cases x ⟨{ w.machine with scopes := w.machine.scopes.enter parent }, w.origins.enter parent,
    w.record⟩ <;> rfl

/-- What an assignment to a variable does. -/
theorem Eval.assignVariable_eq (name : String) (value : Object) (m : Machine) :
    Eval.assignVariable name value m =
      match m.scopes.findVariable? name with
      | none => .error (.error (.undefinedVariable name)) m
      | some v =>
        if v.mutable then
          .ok () { m with scopes := (m.scopes.assign? name value).getD m.scopes }
        else .error (.error (.immutableAssignment name)) m := by
  unfold Eval.assignVariable
  cases hfind : m.scopes.findVariable? name with
  | none => exact bind_eq_error (by rw [Eval.lookupVariable, hfind]; rfl) _
  | some v =>
    refine (bind_eq (by rw [Eval.lookupVariable, hfind]) _).trans ?_
    cases hmutable : v.mutable with
    | false => exact (if_neg (by rw [hmutable]; exact Bool.false_ne_true)).symm
    | true => exact (if_pos hmutable).symm

/-- A function that was looked up is the one that is found. -/
theorem Eval.lookupFunction_ok {name : String} {n : Nat} {m m' : Machine} {r : Routine Body}
    (h : Eval.lookupFunction name n m = .ok r m') : m.scopes.findFunction? name n = some r := by
  unfold Eval.lookupFunction at h
  cases hfind : m.scopes.findFunction? name n with
  | none =>
    rw [hfind] at h
    cases h
  | some r' =>
    rw [hfind] at h
    cases h
    rfl

/-- The result of a basic step that is watched is that of the step. -/
theorem Watch.basic_ok {α : Type} {x : Eval α} {a : α} {w w' : Watched}
    (h : Watch.basic x w = .ok a w') : x w.machine = .ok a w'.machine := by
  rw [← Watch.Erases.basic x w, h]
  rfl

/-- The state after a watched step is the one after the step. -/
theorem Watch.Erases.after_eq {α : Type} {x : Watch α} {y : Eval α} (h : Watch.Erases x y)
    (w : Watched) : after y w.machine = (after x w).machine := by
  have hw := h w
  unfold after
  rw [← hw]
  cases x w <;> rfl

/-- What a run keeps: a property of its states, the changes of a state, and the functions
that may be called.  Changes with `true` may declare variables in the current scope. -/
structure Regime where
  Holds : Machine → Prop
  Change : Bool → Machine → Machine → Prop
  Callable : Routine Body → Prop

namespace Regime

/-- A step between two states that keeps to the regime. -/
def Allows (G : Regime) (declares : Bool) (m m' : Machine) : Prop :=
  G.Holds m → G.Holds m' ∧ G.Change declares m m'

/-- A regime that the basic steps keep to. -/
structure Lawful (G : Regime) : Prop where
  refl : ∀ m, G.Change false m m
  trans : ∀ {declares m m₁ m₂}, G.Change declares m m₁ → G.Change declares m₁ m₂ →
    G.Change declares m m₂
  weaken : ∀ {m m'}, G.Change false m m' → G.Change true m m'
  frame : ∀ {declares m m'}, G.Change declares m m' → m'.scopes.frame = m.scopes.frame
  close : ∀ frame {m m'}, frame.depth ≤ m.scopes.current → G.Change true m m' →
    G.Change false (m.leave frame) (m'.leave frame)
  callable : ∀ {m name n r}, G.Holds m → m.scopes.findFunction? name n = some r → G.Callable r
  declare : ∀ {m v s}, m.scopes.defineVariable v = .ok s →
    G.Allows true m { m with scopes := s }
  function : ∀ {m f parameterTypes returnType s}, m.scopes.current = Scopes.root →
    m.scopes.defineFunction
      (.named f.name parameterTypes returnType (.declared f m.scopes.current)) = .ok s →
      G.Allows true m { m with scopes := s }
  assign : ∀ {m name v value s}, m.scopes.findVariable? name = some v → v.mutable = true →
    m.scopes.assign? name value = some s → G.Allows false m { m with scopes := s }
  alloc : ∀ m elements, G.Allows false m { m with heap := (m.heap.alloc elements).2 }
  write : ∀ m cell i value, G.Allows false m { m with heap := m.heap.write cell i value }
  native : ∀ {m r run arguments value heap}, G.Callable r → r.body = .native run →
    run m.heap arguments = .ok (value, heap) → G.Allows false m { m with heap := heap }
  print : ∀ m text, G.Allows false m { m with output := (m.output.write text).2 }
  scope : ∀ {m parent}, G.Holds m →
    (parent = m.scopes.current ∨ ∃ r decl, G.Callable r ∧ r.body = .declared decl parent) →
      G.Holds (m.enter parent) ∧ ∀ m', G.Holds m' → G.Change true (m.enter parent) m' →
        G.Holds (m'.leave m.scopes.frame)

variable {G : Regime} {α β : Type} {declares : Bool}

/-- Nothing happens. -/
theorem Lawful.allows_refl (hG : G.Lawful) (m : Machine) : G.Allows false m m := fun hm =>
  ⟨hm, hG.refl m⟩

/-- A change without declarations may stand where they are allowed. -/
theorem Lawful.change (hG : G.Lawful) {m m' : Machine} (h : G.Change false m m')
    (declares : Bool) : G.Change declares m m' := by
  cases declares with
  | false => exact h
  | true => exact hG.weaken h

/-- After a change the current scope is the same. -/
theorem Lawful.current_eq (hG : G.Lawful) {m m' : Machine} (h : G.Change declares m m') :
    m'.scopes.current = m.scopes.current :=
  congrArg Frame.previous (hG.frame h)

/-- What was declared in a scope that is closed again is gone. -/
theorem Lawful.change_leave (hG : G.Lawful) {m m' : Machine} {parent : ScopeId}
    (h : G.Change true (m.enter parent) m') : G.Change false m (m'.leave m.scopes.frame) := by
  have hclosed := hG.close m.scopes.frame (Nat.le_refl _) h
  have hback : (m.enter parent).leave m.scopes.frame = m := by
    simp only [Machine.enter, Machine.leave, Scopes.leave_enter]
  rwa [hback] at hclosed

/-! ### Steps -/

/-- A step keeps to the regime, whatever its outcome. -/
def Steps (G : Regime) (declares : Bool) (x : Eval α) : Prop :=
  ∀ m, G.Allows declares m (after x m)

namespace Steps

variable {x : Eval α}

/-- A step that declares nothing may stand where declarations are allowed. -/
theorem weaken (hG : G.Lawful) (h : G.Steps false x) : G.Steps true x := fun m hm =>
  ⟨(h m hm).1, hG.weaken (h m hm).2⟩

/-- One step after the other; the second may rely on the first one's state and result. -/
theorem bind (hG : G.Lawful) {f : α → Eval β} (hx : G.Steps declares x)
    (hf : ∀ m a m', G.Holds m → x m = .ok a m' → G.Steps declares (f a)) :
    G.Steps declares (x >>= f) := by
  intro m hm
  obtain ⟨hholds, hchange⟩ := hx m hm
  cases hxm : x m with
  | ok a m₁ =>
    rw [after_eq hxm] at hholds hchange
    obtain ⟨hholds', hchange'⟩ := hf m a m₁ hm hxm m₁ hholds
    rw [after_bind_ok hxm]
    exact ⟨hholds', hG.trans hchange hchange'⟩
  | error e m₁ =>
    rw [after_bind_error hxm, ← after_eq_of_error hxm]
    exact ⟨hholds, hchange⟩

/-- A step that leaves the state as it is keeps to every regime. -/
theorem of_silent (hG : G.Lawful) (h : ∀ m, after x m = m) : G.Steps false x := by
  intro m
  rw [h m]
  exact hG.allows_refl m

/-- A step that makes one change. -/
theorem of_allows {f : Machine → Machine} (h : ∀ m, G.Allows declares m (f m))
    (hx : ∀ m, after x m = f m) : G.Steps declares x := by
  intro m
  rw [hx m]
  exact h m

/-- What a step declares in a scope of its own is gone after it. -/
theorem inScopeOf (hG : G.Lawful) {m : Machine} {parent : ScopeId}
    (hparent : parent = m.scopes.current ∨
      ∃ r decl, G.Callable r ∧ r.body = .declared decl parent)
    (h : G.Steps true x) : G.Allows false m (after (Eval.inScopeOf parent x) m) := by
  intro hm
  obtain ⟨henter, hleave⟩ := hG.scope hm hparent
  obtain ⟨hholds, hchange⟩ := h (m.enter parent) henter
  have hafter : after (Eval.inScopeOf parent x) m =
      (after x (m.enter parent)).leave m.scopes.frame := by
    rw [after, inScopeOf_eq, after]
    cases x (m.enter parent) <;> rfl
  rw [hafter]
  exact ⟨hleave _ hholds hchange, hG.change_leave hchange⟩

end Steps

/-! ### Basic steps -/

/-- The basic steps that keep to a regime. -/
def kind (G : Regime) : StepKind where
  Step declares x := G.Steps declares x
  Named _ := True
  Callable r _ := G.Callable r

variable (hG : G.Lawful)
include hG

/-- A step that looks at the lists changes nothing. -/
theorem reads_steps (f : Heap → Except EvalError α) : G.Steps false (Eval.reads f) := by
  refine .of_silent hG fun m => ?_
  simp only [after, Eval.reads]
  cases f m.heap <;> rfl

/-- A variable is looked up, and nothing changes. -/
theorem lookupVariable_steps (name : String) : G.Steps false (Eval.lookupVariable name) := by
  refine .of_silent hG fun m => ?_
  unfold after Eval.lookupVariable
  cases m.scopes.findVariable? name <;> rfl

/-- A function is looked up, and nothing changes. -/
theorem lookupFunction_steps (name : String) (n : Nat) :
    G.Steps false (Eval.lookupFunction name n) := by
  refine .of_silent hG fun m => ?_
  unfold after Eval.lookupFunction
  cases m.scopes.findFunction? name n <;> rfl

/-- A variable that may be changed gets another value; otherwise nothing changes. -/
theorem assignVariable_steps (name : String) (value : Object) :
    G.Steps false (Eval.assignVariable name value) := by
  intro m hm
  rw [after, Eval.assignVariable_eq]
  cases hfind : m.scopes.findVariable? name with
  | none => exact hG.allows_refl m hm
  | some v =>
    cases hmutable : v.mutable with
    | false => simpa [hmutable] using hG.allows_refl m hm
    | true =>
      cases hassign : m.scopes.assign? name value with
      | none => simpa [hmutable] using hG.allows_refl m hm
      | some s => simpa [hmutable] using hG.assign hfind hmutable hassign hm

/-- A list is made. -/
theorem allocList_steps (elements : List Object) : G.Steps false (Eval.allocList elements) :=
  .of_allows (fun m => hG.alloc m elements) fun _ => rfl

/-- A line is printed, or as much of it as the output takes. -/
theorem printLine_steps (o : Object) : G.Steps false (Eval.printLine o) := by
  refine .of_allows (fun m => hG.print m (m.heap.text o.value ++ "\n")) fun m => ?_
  unfold after Eval.printLine
  cases m.output.write (m.heap.text o.value ++ "\n") with
  | mk taken output => cases taken <;> rfl

/-- A function of the embedding program runs, if the regime lets it be called. -/
theorem callNative_steps {r : Routine Body} {run : Native} (hr : G.Callable r)
    (hbody : r.body = .native run) (arguments : List Object) :
    G.Steps false (Eval.callNative r.name run arguments) := by
  intro m hm
  unfold after Eval.callNative
  cases hrun : run m.heap arguments with
  | ok result => exact hG.native hr hbody hrun hm
  | error message => exact hG.allows_refl m hm

/-- A variable is declared in the current scope, unless it has one of the name. -/
theorem defineVariable_steps (v : Variable Object) : G.Steps true (Eval.defineVariable v) := by
  intro m hm
  unfold after Eval.defineVariable
  cases hdefine : m.scopes.defineVariable v with
  | ok s => exact hG.declare hdefine hm
  | error e => exact ⟨hm, hG.weaken (hG.refl m)⟩

/-- The basic steps of a program keep to a lawful regime. -/
theorem kind_lawful : G.kind.Lawful where
  andThen hx hf := Steps.bind hG hx fun _ a _ _ _ => hf a
  reads f _ := reads_steps hG f
  lookupVariable _ := lookupVariable_steps hG _
  assignVariable _ value := assignVariable_steps hG _ value
  defineVariable _ := defineVariable_steps hG _
  allocList := allocList_steps hG
  write cell i value := .of_allows (fun m => hG.write m cell i value) fun _ => rfl
  printLine := printLine_steps hG
  callNative hr hbody := callNative_steps hG hr hbody _
  mismatch _ _ := .of_silent hG fun _ => rfl

omit hG

/-! ### Watched steps -/

/-- What is known after a watched step: the state keeps to the regime, and so do the
moments that were recorded since.  The state of such a moment, with the scopes closed that
were opened since the start, is changed until the end as the regime allows. -/
structure Passes (G : Regime) (declares : Bool) (w w' : Watched) : Prop where
  holds : G.Holds w'.machine
  change : G.Change declares w.machine w'.machine
  record : ∀ moment ∈ w'.record, moment ∈ w.record ∨ G.Holds moment.machine
  lasting : ∀ moment ∈ w'.record, moment ∈ w.record ∨
    G.Change declares (moment.machine.leave w.machine.scopes.frame) w'.machine

/-- A watched step keeps to the regime, whatever its outcome. -/
def Obeys (G : Regime) (declares : Bool) (x : Watch α) : Prop :=
  ∀ w, G.Holds w.machine → G.Passes declares w (after x w)

/-- One watched step after the other. -/
theorem Passes.trans (hG : G.Lawful) {w w₁ w₂ : Watched} (h : G.Passes declares w w₁)
    (h' : G.Passes declares w₁ w₂) : G.Passes declares w w₂ where
  holds := h'.holds
  change := hG.trans h.change h'.change
  record moment hmoment := by
    rcases h'.record moment hmoment with hold | hnew
    · exact h.record moment hold
    · exact .inr hnew
  lasting moment hmoment := by
    rcases h'.lasting moment hmoment with hold | hnew
    · exact (h.lasting moment hold).imp_right fun hlast => hG.trans hlast h'.change
    · rw [hG.frame h.change] at hnew
      exact .inr hnew

/-- Nothing happens, and the record may note it. -/
theorem Passes.of_noted (hG : G.Lawful) {w w' : Watched} (hw : G.Holds w.machine)
    (hmachine : w'.machine = w.machine)
    (hrecord : ∀ moment ∈ w'.record, moment ∈ w.record ∨ moment.machine = w.machine) :
    G.Passes false w w' := by
  refine ⟨hmachine ▸ hw, hmachine ▸ hG.refl _, fun moment hmoment => ?_, fun moment hmoment => ?_⟩
  · refine (hrecord moment hmoment).imp_right fun h => ?_
    rwa [h]
  · refine (hrecord moment hmoment).imp_right fun h => ?_
    rw [h, hmachine, Machine.leave_of_frame_eq rfl]
    exact hG.refl _

/-- A basic step is made, and recorded if it succeeds. -/
theorem Passes.basic (hG : G.Lawful) {x : Eval α} {w : Watched}
    (hholds : G.Holds (after x w.machine))
    (hchange : G.Change declares w.machine (after x w.machine)) :
    G.Passes declares w (after (Watch.basic x) w) := by
  unfold Watch.basic
  simp only [after] at hholds hchange ⊢
  cases hx : x w.machine with
  | ok a m =>
    rw [hx] at hholds hchange
    refine ⟨hholds, hchange, fun moment hmoment => ?_, fun moment hmoment => ?_⟩
    · rcases List.mem_cons.1 hmoment with rfl | hmoment
      · exact .inr hholds
      · exact .inl hmoment
    · rcases List.mem_cons.1 hmoment with rfl | hmoment
      · refine .inr ?_
        rw [Machine.leave_of_frame_eq (hG.frame hchange)]
        exact hG.change (hG.refl m) declares
      · exact .inl hmoment
  | error e m =>
    rw [hx] at hholds hchange
    exact ⟨hholds, hchange, fun _ h => .inl h, fun _ h => .inl h⟩

namespace Obeys

variable {x : Watch α}

/-- A watched step that does nothing but perhaps note something down. -/
theorem of_noted (hG : G.Lawful) (hmachine : ∀ w, (after x w).machine = w.machine)
    (hrecord : ∀ w, ∀ moment ∈ (after x w).record,
      moment ∈ w.record ∨ moment.machine = w.machine) : G.Obeys false x := fun w hw =>
  .of_noted hG hw (hmachine w) (hrecord w)

/-- A step that declares nothing may stand where declarations are allowed. -/
theorem weaken (hG : G.Lawful) (h : G.Obeys false x) : G.Obeys true x := by
  intro w hw
  obtain ⟨hholds, hchange, hrecord, hlasting⟩ := h w hw
  refine ⟨hholds, hG.weaken hchange, hrecord, fun moment hmoment => ?_⟩
  exact (hlasting moment hmoment).imp_right fun hlast => hG.weaken hlast

/-- A step may stand where declarations are allowed. -/
theorem declaring (hG : G.Lawful) (h : G.Obeys declares x) : G.Obeys true x := by
  cases declares with
  | false => exact h.weaken hG
  | true => exact h

/-- One step after the other; the second may rely on the first one's state and result. -/
theorem bind (hG : G.Lawful) {f : α → Watch β} (hx : G.Obeys declares x)
    (hf : ∀ w a w', G.Holds w.machine → x w = .ok a w' → G.Obeys declares (f a)) :
    G.Obeys declares (x >>= f) := by
  intro w hw
  have hpasses := hx w hw
  cases hxw : x w with
  | ok a w₁ =>
    rw [after_eq hxw] at hpasses
    rw [after_bind_ok hxw]
    exact hpasses.trans hG (hf w a w₁ hw hxw w₁ hpasses.holds)
  | error e w₁ =>
    rw [after_bind_error hxw, ← after_eq_of_error hxw]
    exact hpasses

/-- A basic step that keeps to the regime does so when it is watched. -/
theorem basic (hG : G.Lawful) {x : Eval α} (h : G.Steps declares x) :
    G.Obeys declares (Watch.basic x) := by
  intro w hw
  obtain ⟨hholds, hchange⟩ := h w.machine hw
  exact .basic hG hholds hchange

/-- The function of a call is looked up, and the call goes on. -/
theorem lookupFunction (hG : G.Lawful) {f : Routine Body → Watch α} (name : String) (n : Nat)
    (hf : ∀ r, G.Callable r → G.Obeys false (f r)) :
    G.Obeys false (Watch.basic (Eval.lookupFunction name n) >>= f) := by
  refine (basic hG (lookupFunction_steps hG name n)).bind hG fun w r w' hw hr => hf r ?_
  exact hG.callable hw (Eval.lookupFunction_ok (Watch.basic_ok hr))

/-- What a step declares in a scope of its own is gone after it. -/
theorem inScopeOf (hG : G.Lawful) {w : Watched} {parent : ScopeId} (hw : G.Holds w.machine)
    (hparent : parent = w.machine.scopes.current ∨
      ∃ r decl, G.Callable r ∧ r.body = .declared decl parent)
    (h : G.Obeys true x) : G.Passes false w (after (Watch.inScopeOf parent x) w) := by
  obtain ⟨henter, hleave⟩ := hG.scope hw hparent
  have hpasses := h ⟨w.machine.enter parent, w.origins.enter parent, w.record⟩ henter
  have hholds := hleave _ hpasses.holds hpasses.change
  have hchange := hG.change_leave hpasses.change
  have hrecord := hpasses.record
  have hlasting := fun moment hmoment => (hpasses.lasting moment hmoment).imp_right fun hlast => by
    have hclosed := hG.close w.machine.scopes.frame (Nat.le_refl _) hlast
    rwa [Machine.leave_leave _ (by simp [Machine.enter, Scopes.frame])] at hclosed
  rw [after, Watch.inScopeOf_eq]
  cases hx : x ⟨w.machine.enter parent, w.origins.enter parent, w.record⟩ with
  | ok a w' =>
    rw [after_eq hx] at hholds hchange hrecord hlasting
    exact ⟨hholds, hchange, hrecord, hlasting⟩
  | error e w' =>
    rw [after_eq_of_error hx] at hholds hchange hrecord hlasting
    exact ⟨hholds, hchange, hrecord, hlasting⟩

end Obeys

/-! ### Parts of programs -/

/-- The walk that shows that watched runs keep to a regime. -/
def watching (G : Regime) : Walk := { G.kind with Rel declares x _ := G.Obeys declares x }

/-- Watched basic steps keep to a lawful regime, and so do watched steps that are made of them. -/
theorem watching_lawful (hG : G.Lawful) : G.watching.Lawful where
  steps := kind_lawful hG
  basic hx := .basic hG hx
  weaken h := Obeys.weaken hG h
  pure _ := .of_noted hG (fun _ => rfl) fun _ _ h => .inl h
  note event := .of_noted hG (fun _ => rfl) fun _ moment hmoment =>
    (List.mem_cons.1 hmoment).symm.imp_right fun h => by rw [h]
  place _ := .of_noted hG (fun _ => rfl) fun _ _ h => .inl h
  seq _ hP _ hx hf := Obeys.bind hG hx fun w a w' _ ha => hf a (hP w a w' ha)
  lookupFunction name n hf := .lookupFunction hG name n hf
  inScope h _ hw := Obeys.inScopeOf hG hw (.inl rfl) h
  inScopeOf hr hbody h _ hw := Obeys.inScopeOf hG hw (.inr ⟨_, _, hr, hbody⟩) h
  names _ _ _ _ := trivial

/-- **Every part of a program keeps to a lawful regime.** -/
theorem obeysAt (hG : G.Lawful) (fuel : Nat) : G.watching.RelAt fuel fuel :=
  (watching_lawful hG).relAt (.basic hG (.of_silent hG fun _ => rfl)) fuel

/-- The walk that shows that runs keep to a regime. -/
def stepping (G : Regime) : Walk := { G.kind with Rel declares _ y := G.Steps declares y }

/-- Basic steps keep to a lawful regime, and so do steps that are made of them. -/
theorem stepping_lawful (hG : G.Lawful) : G.stepping.Lawful where
  steps := kind_lawful hG
  basic hx := hx
  weaken h := Steps.weaken hG h
  pure _ := .of_silent hG fun _ => rfl
  note _ := .of_silent hG fun _ => rfl
  place _ := .of_silent hG fun _ => rfl
  seq _ _ hP hx hf := Steps.bind hG hx fun m a m' _ ha => hf a (hP m a m' ha)
  lookupFunction name n hf := (lookupFunction_steps hG name n).bind hG fun _ r _ hm hr =>
    hf r (hG.callable hm (Eval.lookupFunction_ok hr))
  inScope h _ := Steps.inScopeOf hG (.inl rfl) h
  inScopeOf hr hbody h _ := Steps.inScopeOf hG (.inr ⟨_, _, hr, hbody⟩) h
  names _ _ _ _ := trivial

/-- **Every part of a program that is not watched keeps to a lawful regime.** -/
theorem stepsAt (hG : G.Lawful) (fuel : Nat) : G.stepping.RelAt fuel fuel :=
  (stepping_lawful hG).relAt (.of_silent hG fun _ => rfl) fuel

/-- A property of steps that relies on the states of a regime, and on the functions `K` that are
called with a number of arguments.  Steps that are put together have it if what they are made of
has it. -/
structure Relying (G : Regime) (K : Routine Body → Nat → Prop)
    (Q : {α : Type} → Eval α → Prop) : Prop where
  bind : ∀ {α β : Type} {declares : Bool} {x : Eval α} {f : α → Eval β}, G.Steps declares x →
    Q x → (∀ m a m', G.Holds m → x m = .ok a m' → Q (f a)) → Q (x >>= f)
  reads : ∀ {α : Type} (f : Heap → Except EvalError α),
    (∀ h name expected found, f h ≠ .error (.arityMismatch name expected found)) →
      Q (Eval.reads f)
  outOfFuel : ∀ {α : Type}, Q (Eval.outOfFuel : Eval α)
  lookupVariable : ∀ name, Q (Eval.lookupVariable name)
  assignVariable : ∀ name value, Q (Eval.assignVariable name value)
  defineVariable : ∀ v, Q (Eval.defineVariable v)
  allocList : ∀ elements, Q (Eval.allocList elements)
  write : ∀ cell i value, Q (Eval.write cell i value)
  printLine : ∀ o, Q (Eval.printLine o)
  callNative : ∀ name run arguments, Q (Eval.callNative name run arguments)
  lookupFunction : ∀ name n, Q (Eval.lookupFunction name n)
  callable : ∀ {m name n r}, G.Holds m → m.scopes.findFunction? name n = some r → K r n
  mismatch : ∀ {r n}, K r n → n ≠ r.arity →
    Q (Eval.fail (.arityMismatch r.name r.arity n) : Eval Object)
  inScope : ∀ {α : Type} {x : Eval α}, Q x → Q (Eval.inScope x)
  inScopeOf : ∀ {α : Type} {x : Eval α} {r decl closure}, G.Callable r →
    r.body = .declared decl closure → Q x → Q (Eval.inScopeOf closure x)

/-- The walk that shows a property of steps that relies on a regime. -/
def relying (G : Regime) (K : Routine Body → Nat → Prop) (Q : {α : Type} → Eval α → Prop) :
    Walk where
  Step declares x := G.Steps declares x ∧ Q x
  Rel declares _ y := G.Steps declares y ∧ Q y
  Named _ := True
  Callable r n := G.Callable r ∧ K r n

namespace Relying

variable {K : Routine Body → Nat → Prop} {Q : {α : Type} → Eval α → Prop}

/-- A result is a step that reads nothing. -/
theorem pure (hQ : G.Relying K Q) (a : α) : Q (Pure.pure a : Eval α) :=
  hQ.reads (fun _ => .ok a) fun _ _ _ _ h => by cases h

/-- A property of the basic steps, which relies on a lawful regime, is passed on to all steps. -/
theorem lawful (hG : G.Lawful) (hQ : G.Relying K Q) : (G.relying K Q).Lawful where
  andThen hx hf := ⟨(kind_lawful hG).andThen hx.1 fun a => (hf a).1,
    hQ.bind hx.1 hx.2 fun _ a _ _ _ => (hf a).2⟩
  reads f hf := ⟨reads_steps hG f, hQ.reads f hf⟩
  lookupVariable _ := ⟨lookupVariable_steps hG _, hQ.lookupVariable _⟩
  assignVariable _ value := ⟨assignVariable_steps hG _ value, hQ.assignVariable _ value⟩
  defineVariable _ := ⟨defineVariable_steps hG _, hQ.defineVariable _⟩
  allocList elements := ⟨allocList_steps hG elements, hQ.allocList elements⟩
  write cell i value := ⟨(kind_lawful hG).write cell i value, hQ.write cell i value⟩
  printLine o := ⟨printLine_steps hG o, hQ.printLine o⟩
  callNative hr hbody := ⟨callNative_steps hG hr.1 hbody _, hQ.callNative _ _ _⟩
  mismatch hr hn := ⟨(kind_lawful hG).mismatch hr.1 hn, hQ.mismatch hr.2 hn⟩
  basic hx := hx
  weaken h := ⟨h.1.weaken hG, h.2⟩
  pure a := ⟨(stepping_lawful hG).pure a, hQ.pure a⟩
  note event := ⟨(stepping_lawful hG).note event, hQ.pure ()⟩
  place v := ⟨(stepping_lawful hG).place v, hQ.pure ()⟩
  seq _ _ hP hx hf := ⟨hx.1.bind hG fun m a m' _ ha => (hf a (hP m a m' ha)).1,
    hQ.bind hx.1 hx.2 fun m a m' _ ha => (hf a (hP m a m' ha)).2⟩
  lookupFunction name n hf := by
    -- a function that is found may be called
    have hnext : ∀ m r m', G.Holds m → Eval.lookupFunction name n m = .ok r m' →
        G.Steps false _ ∧ Q _ := fun m r m' hm hr =>
      have hfind := Eval.lookupFunction_ok hr
      hf r ⟨hG.callable hm hfind, hQ.callable hm hfind⟩
    have hsteps := lookupFunction_steps hG name n
    exact ⟨hsteps.bind hG fun m r m' hm hr => (hnext m r m' hm hr).1,
      hQ.bind hsteps (hQ.lookupFunction name n) fun m r m' hm hr => (hnext m r m' hm hr).2⟩
  inScope h := ⟨(stepping_lawful hG).inScope (x := Watch.basic Eval.outOfFuel) h.1, hQ.inScope h.2⟩
  inScopeOf hr hbody h := ⟨(stepping_lawful hG).inScopeOf (x := Watch.basic Eval.outOfFuel) (n := 0)
    hr.1 hbody h.1, hQ.inScopeOf hr.1 hbody h.2⟩
  names _ _ _ _ := trivial

/-- **Every part of a program has a property that relies on a lawful regime.** -/
theorem relAt (hG : G.Lawful) (hQ : G.Relying K Q) (fuel : Nat) :
    (G.relying K Q).RelAt fuel fuel :=
  (hQ.lawful hG).relAt ⟨.of_silent hG fun _ => rfl, hQ.outOfFuel⟩ fuel

end Relying

/-! ### Programs -/

/-- A global is evaluated and declared. -/
theorem global_obeys (hG : G.Lawful) (fuel : Nat) (g : GlobalDecl) :
    G.Obeys true (Watch.global fuel g) :=
  (obeysAt hG fuel).global (watching_lawful hG) trivial fun _ _ => trivial

/-- A step that is made in the root keeps to the regime. -/
def Serves (G : Regime) (x : Watch α) : Prop :=
  ∀ w, G.Holds w.machine → w.machine.scopes.current = Scopes.root → G.Passes true w (after x w)

namespace Serves

/-- A step that keeps to the regime anywhere does so in the root. -/
theorem of_obeys {x : Watch α} (h : G.Obeys true x) : G.Serves x := fun w hw _ => h w hw

/-- After a step in the root the next one is made in the root. -/
theorem bind (hG : G.Lawful) {x : Watch α} {f : α → Watch β} (hx : G.Serves x)
    (hf : ∀ a, G.Serves (f a)) : G.Serves (x >>= f) := by
  intro w hw hroot
  have hpasses := hx w hw hroot
  cases hxw : x w with
  | ok a w₁ =>
    rw [after_eq hxw] at hpasses
    rw [after_bind_ok hxw]
    have hroot₁ := (hG.current_eq hpasses.change).trans hroot
    exact hpasses.trans hG (hf a w₁ hpasses.holds hroot₁)
  | error e w₁ =>
    rw [after_bind_error hxw, ← after_eq_of_error hxw]
    exact hpasses

/-- Steps in the root, one for each element of a list. -/
theorem forM (hG : G.Lawful) {γ : Type} {f : γ → Watch Unit} (h : ∀ c, G.Serves (f c))
    (l : List γ) : G.Serves (l.forM f) := by
  induction l with
  | nil => exact of_obeys ((watching_lawful hG).result ())
  | cons c l ih => exact (h c).bind hG fun _ => ih

end Serves

/-- Looking up a type changes nothing. -/
theorem after_typeNamed (name : String) (m : Machine) : after (Eval.typeNamed name) m = m := by
  unfold Eval.typeNamed
  cases Ty.ofName? name <;> rfl

/-- Looking up types changes nothing. -/
theorem after_mapM_typeNamed (names : List String) (m : Machine) :
    after (names.mapM Eval.typeNamed) m = m := by
  induction names with
  | nil => rfl
  | cons name names ih =>
    rw [List.mapM_cons]
    rcases after_bind_silent (after_typeNamed name m) _ with h | ⟨ty, h⟩
    · exact h
    · rw [h]
      rcases after_bind_silent ih _ with h | ⟨tys, h⟩ <;> exact h

/-- Defining a function of the program changes nothing but the current scope. -/
theorem after_function (f : FunctionDecl) (m : Machine) :
    after (Eval.function f) m = m ∨ ∃ parameterTypes returnType s,
      m.scopes.defineFunction
        (.named f.name parameterTypes returnType (.declared f m.scopes.current)) = .ok s ∧
      after (Eval.function f) m = { m with scopes := s } := by
  have hdefine : ∀ tys ty, (after (fun m => Eval.defineFunction
      (.named f.name tys ty (.declared f m.scopes.current)) m) m = m) ∨ ∃ s,
      m.scopes.defineFunction (.named f.name tys ty (.declared f m.scopes.current)) = .ok s ∧
      after (fun m => Eval.defineFunction
        (.named f.name tys ty (.declared f m.scopes.current)) m) m = { m with scopes := s } := by
    intro tys ty
    simp only [after, Eval.defineFunction]
    cases m.scopes.defineFunction (.named f.name tys ty (.declared f m.scopes.current)) with
    | ok s => exact .inr ⟨s, rfl, rfl⟩
    | error e => exact .inl rfl
  unfold Eval.function
  rcases after_bind_silent (after_mapM_typeNamed f.parameterTypeNames m) _ with h | ⟨tys, h⟩
  · exact .inl h
  rw [h]
  cases f.returnTypeName with
  | none =>
    rcases hdefine tys .nil with h | ⟨s, hs, h⟩
    · exact .inl h
    · exact .inr ⟨tys, .nil, s, hs, h⟩
  | some name =>
    rcases after_bind_silent (after_typeNamed name m) _ with h | ⟨ty, h⟩
    · exact .inl h
    simp only [h]
    rcases hdefine tys ty with h | ⟨s, hs, h⟩
    · exact .inl h
    · exact .inr ⟨tys, ty, s, hs, h⟩

/-- Functions may be defined in the root. -/
theorem function_serves (hG : G.Lawful) (f : FunctionDecl) :
    G.Serves (Watch.basic (Eval.function f)) := by
  intro w hw hroot
  have hallows : G.Allows true w.machine (after (Eval.function f) w.machine) := by
    rcases after_function f w.machine with h | ⟨tys, ty, s, hs, h⟩
    · rw [h]
      exact fun hm => ⟨hm, hG.weaken (hG.refl _)⟩
    · rw [h]
      exact hG.function hroot hs
  obtain ⟨hholds, hchange⟩ := hallows hw
  exact .basic hG hholds hchange

/-- **A program that is run from the root keeps to a lawful regime.** -/
theorem source_obeys (hG : G.Lawful) (fuel : Nat) (p : Source) :
    G.Serves (Watch.source fuel p) := by
  have hglobals := Serves.forM hG (fun g => .of_obeys (global_obeys hG fuel g)) p.globals
  have hfunctions := Serves.forM hG (function_serves hG) p.functions
  have hmain := Obeys.lookupFunction hG "main" 0 fun r hr => (obeysAt hG fuel).call r [] hr
  exact hglobals.bind hG fun _ => hfunctions.bind hG fun _ => .of_obeys (hmain.weaken hG)

end Regime
end Scriptlet
