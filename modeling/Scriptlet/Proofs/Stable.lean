import Scriptlet.Proofs.NameSound
import Scriptlet.Proofs.Places

/-!
# What lasts

A variable keeps its name, its type and whether it may be assigned as long as its scope is
open, and its value too if it may not be assigned.  A list keeps its length for ever, and only
its elements are replaced (`Machine.Stable`).  Functions of the embedding program are trusted
to make new lists only (`Routine.Conserves`).

This is a lawful regime.  It holds between every two states of which one comes before the
other: between requests, in the midst of a request, and across them
(`bindings_stable_of_occurs`).
-/

namespace Scriptlet

/-- A variable and the same variable later. -/
structure Variable.Lasts (v v' : Variable Object) : Prop where
  name : v'.name = v.name
  ty : v'.ty = v.ty
  mutable : v'.mutable = v.mutable
  value : v.mutable = false → v'.value = v.value

/-- A variable lasts from a state to itself. -/
theorem Variable.Lasts.refl (v : Variable Object) : v.Lasts v := ⟨rfl, rfl, rfl, fun _ => rfl⟩

/-- A variable that lasts and then lasts on lasts throughout. -/
theorem Variable.Lasts.trans {v v₁ v₂ : Variable Object} (h : v.Lasts v₁) (h' : v₁.Lasts v₂) :
    v.Lasts v₂ where
  name := h'.name.trans h.name
  ty := h'.ty.trans h.ty
  mutable := h'.mutable.trans h.mutable
  value hv := (h'.value (h.mutable.trans hv)).trans (h.value hv)

/-- The lists are there later, and are as long as before. -/
def Heap.Lasts (h h' : Heap) : Prop :=
  ∀ cell < h.cells.length, cell < h'.cells.length ∧
    (h'.elements cell).length = (h.elements cell).length

namespace Heap.Lasts

variable {h h₁ h₂ : Heap}

/-- Lists last from a state to itself. -/
theorem refl (h : Heap) : h.Lasts h := fun _ hcell => ⟨hcell, rfl⟩

/-- Lists that last and then last on last throughout. -/
theorem trans (hlasts : h.Lasts h₁) (hlasts' : h₁.Lasts h₂) : h.Lasts h₂ := fun cell hcell =>
  have hfirst := hlasts cell hcell
  have hsecond := hlasts' cell hfirst.1
  ⟨hsecond.1, hsecond.2.trans hfirst.2⟩

/-- New lists are made. -/
theorem of_more (hmore : h.cells <+: h₁.cells) : h.Lasts h₁ := by
  obtain ⟨more, hcells⟩ := hmore
  intro cell hcell
  rw [elements, elements, ← hcells, List.getElem?_append_left hcell, List.length_append]
  exact ⟨Nat.lt_add_right _ hcell, rfl⟩

/-- A new list leaves the others alone. -/
theorem alloc (h : Heap) (elements : List Object) : h.Lasts (h.alloc elements).2 :=
  of_more ⟨[elements], rfl⟩

/-- An element that is replaced leaves the lengths alone. -/
theorem write (h : Heap) (cell : CellId) (i : Nat) (value : Object) :
    h.Lasts (h.write cell i value) := by
  intro cell' hcell'
  refine ⟨by simpa [Heap.write] using hcell', ?_⟩
  rw [elements, elements, Heap.write, List.getElem?_modify]
  cases h.cells[cell']? with
  | none => rfl
  | some elements => by_cases hcell : cell = cell' <;> simp [hcell]

end Heap.Lasts

namespace Machine

/-- What lasts from one state to a later one. -/
structure Stable (m m' : Machine) : Prop where
  vars : ∀ i name v, i < m'.scopes.depth → m.scopes.variableAt i name = some v →
    ∃ v', m'.scopes.variableAt i name = some v' ∧ v.Lasts v'
  lists : m.heap.Lasts m'.heap

namespace Stable

variable {m m₁ m₂ : Machine}

/-- A state is stable with respect to itself. -/
theorem refl (m : Machine) : m.Stable m where
  vars _ _ v _ hv := ⟨v, hv, .refl v⟩
  lists := .refl _

/-- A scope that is open in the end was open in between. -/
theorem trans (h : m.Stable m₁) (h' : m₁.Stable m₂) (hdepth : m₂.scopes.depth ≤ m₁.scopes.depth) :
    m.Stable m₂ where
  vars i name v hi hv := by
    obtain ⟨v₁, hv₁, hlasts⟩ := h.vars i name v (Nat.lt_of_lt_of_le hi hdepth) hv
    obtain ⟨v₂, hv₂, hlasts'⟩ := h'.vars i name v₁ hi hv₁
    exact ⟨v₂, hv₂, hlasts.trans hlasts'⟩
  lists := h.lists.trans h'.lists

/-- Only the lists are changed. -/
theorem of_heap {heap : Heap} (h : m.heap.Lasts heap) : m.Stable { m with heap := heap } :=
  ⟨(refl m).vars, h⟩

/-- If only scopes change, only variables matter. -/
theorem of_vars {s : Scopes Object Body}
    (h : ∀ i name v, m.scopes.variableAt i name = some v →
      ∃ v', s.variableAt i name = some v' ∧ v.Lasts v') :
    m.Stable { m with scopes := s } :=
  ⟨fun i name v _ hv => h i name v hv, .refl _⟩

/-- The variable that is assigned is mutable, and the others are not touched. -/
theorem assign {name : String} {v : Variable Object} {value : Object} {s : Scopes Object Body}
    (hfind : m.scopes.findVariable? name = some v) (hmutable : v.mutable = true)
    (h : m.scopes.assign? name value = some s) : m.Stable { m with scopes := s } := by
  obtain ⟨⟨i, v'⟩, hresolve, rfl⟩ := Option.map_eq_some_iff.1 hfind
  have hat := Scopes.variableAt_of_resolve? hresolve
  rw [Scopes.assign?, hresolve] at h
  cases h
  refine of_vars fun j name' u hu => ?_
  rw [Scopes.variableAt_setVariable hat]
  by_cases hplace : i = j ∧ name = name'
  · obtain ⟨rfl, rfl⟩ := hplace
    rw [hat] at hu
    cases hu
    refine ⟨_, if_pos ⟨rfl, rfl⟩, rfl, rfl, rfl, fun hfixed => ?_⟩
    rw [hmutable] at hfixed
    cases hfixed
  · exact ⟨u, by rwa [if_neg hplace], .refl u⟩

/-- Scopes that are closed take their variables with them on both sides. -/
theorem close (frame : Frame) (h : m.Stable m₁) : (m.leave frame).Stable (m₁.leave frame) where
  vars i name v hi hv := by
    rw [leave, Scopes.variableAt_leave] at hv ⊢
    split at hv
    · rename_i hlt
      rw [if_pos hlt]
      rw [Scopes.depth, leave, Scopes.leave, List.length_take] at hi
      exact h.vars i name v (Nat.lt_of_lt_of_le hi (Nat.min_le_right ..)) hv
    · cases hv
  lists := h.lists

/-- The scopes that were closed are not open later. -/
theorem of_leave {frame : Frame} (h : (m.leave frame).Stable m₁)
    (hdepth : m₁.scopes.depth ≤ frame.depth) : m.Stable m₁ where
  vars i name v hi hv := by
    refine h.vars i name v hi ?_
    rw [leave, Scopes.variableAt_leave, if_pos (Nat.lt_of_lt_of_le hi hdepth)]
    exact hv
  lists := h.lists

end Stable
end Machine

/-! ### The regime -/

/-- A function of the embedding program makes new lists at most; the others are run. -/
def Routine.Conserves (r : Routine Body) : Prop :=
  ∀ run, r.body = .native run → ∀ h arguments value h', run h arguments = .ok (value, h') →
    h.cells <+: h'.cells

/-- All functions that can be called leave the lists alone. -/
def Machine.Conserving (m : Machine) : Prop :=
  ∀ i key r, m.scopes.functionAt i key = some r → r.Conserves

/-- Variables and lists last. -/
def Regime.stable : Regime where
  Holds := Machine.Conserving
  Change _ m m' := m'.scopes.frame = m.scopes.frame ∧ m.Stable m'
  Callable := Routine.Conserves

namespace Regime

/-- To define a function leaves variables alone. -/
theorem stable_defineFunction {m : Machine} {r : Routine Body} {s : Scopes Object Body}
    (hr : r.Conserves) (h : m.scopes.defineFunction r = .ok s) :
    stable.Allows true m { m with scopes := s } := by
  refine fun hm => ⟨fun i key r' hr' => ?_, (Scopes.Kept.defineFunction h).frame, ?_⟩
  · rcases Scopes.functionAt_of_defineFunction h hr' with ⟨-, rfl⟩ | hold
    · exact hr
    · exact hm i key r' hold
  · refine .of_vars fun i name v hv => ⟨v, ?_, .refl v⟩
    rwa [Scopes.variableAt_defineFunction h]

/-- Variables and lists last through all steps of a run. -/
theorem stable_lawful : stable.Lawful where
  refl m := ⟨rfl, .refl m⟩
  trans h h' := by
    have hdepth := congrArg Frame.depth h'.1
    exact ⟨h'.1.trans h.1, h.2.trans h'.2 (Nat.le_of_eq hdepth)⟩
  weaken h := h
  frame h := h.1
  close frame m m' _ h := by
    refine ⟨?_, h.2.close frame⟩
    have hdepth := congrArg Frame.depth h.1
    simp only [Scopes.frame, Scopes.depth, Machine.leave, Scopes.leave, List.length_take,
      Frame.mk.injEq, true_and] at hdepth ⊢
    rw [hdepth]
  callable hm hr := by
    obtain ⟨i, hat⟩ := Scopes.functionAt_of_findFunction? hr
    exact hm i _ _ hat
  declare h hm := by
    refine ⟨fun i key r hr => ?_, (Scopes.Kept.defineVariable h).frame, ?_⟩
    · rw [Scopes.functionAt_defineVariable h] at hr
      exact hm i key r hr
    · exact .of_vars fun i name v hv => ⟨v, Scopes.variableAt_of_defineVariable h hv, .refl v⟩
  function _ h := stable_defineFunction (fun _ hbody => by cases hbody) h
  assign {m name v value s} hfind hmutable h hm := by
    refine ⟨fun i key r hr => ?_, (Scopes.Kept.assign h).frame, .assign hfind hmutable h⟩
    rw [Scopes.functionAt_assign h] at hr
    exact hm i key r hr
  alloc m elements hm := ⟨hm, rfl, .of_heap (.alloc m.heap elements)⟩
  write m cell i value hm := ⟨hm, rfl, .of_heap (.write m.heap cell i value)⟩
  native hr hbody hrun hm := ⟨hm, rfl, .of_heap (.of_more (hr _ hbody _ _ _ _ hrun))⟩
  print m text hm := ⟨hm, rfl, (Machine.Stable.refl m).vars, .refl m.heap⟩
  scope {m parent} hm _ := by
    refine ⟨fun i key r hr => ?_, fun m' hm' _ i key r hr => ?_⟩
    · exact hm i key r (by rwa [Machine.enter, Scopes.functionAt_enter] at hr)
    · exact hm' i key r (Scopes.functionAt_of_leave hr)

end Regime

/-! ### What the embedding program does -/

/-- The embedding program makes a list, or asks for something. -/
inductive Act where
  | makeList (elements : List Object)
  | ask (fuel : Nat) (request : Request)

/-- The watched state after a request. -/
def Request.watched (fuel : Nat) (w : Watched) : Request → Watched
  | defineVariable v => after (Watch.basic (Eval.defineVariable v)) w
  | defineFunction r => after (Watch.basic (Eval.defineFunction r)) w
  | execute s => after (Watch.statement fuel s) w
  | evaluate e => after (Watch.expression fuel e) w
  | invoke name arguments =>
    after (do
      Watch.call fuel (← Watch.basic (Eval.lookupFunction name arguments.length)) arguments) w
  | run p => after (Watch.source fuel p) w

/-- A watched request does what the request does. -/
theorem Request.watched_machine (fuel : Nat) (w : Watched) (request : Request) :
    (request.watched fuel w).machine = request.serve fuel w.machine := by
  cases request with
  | defineVariable v => exact ((Watch.Erases.basic _).after_eq w).symm
  | defineFunction r => exact ((Watch.Erases.basic _).after_eq w).symm
  | execute s =>
    have hexecute : after (Eval.execute fuel s) w.machine =
        after (Eval.statement fuel s) w.machine :=
      after_bind_left (fun flow m => by cases flow <;> rfl) w.machine
    exact (hexecute.trans (((Watch.erasesAt fuel).statement s fun _ _ => trivial).after_eq w)).symm
  | evaluate e => exact (((Watch.erasesAt fuel).expression e fun _ _ => trivial).after_eq w).symm
  | invoke name arguments =>
    have herases := Watch.erasing_lawful.lookupFunction name arguments.length fun r _ =>
      (Watch.erasesAt fuel).call r arguments trivial
    exact (herases.after_eq w).symm
  | run p => exact ((Watch.source_erases fuel p).after_eq w).symm

/-- A function is defined in the current scope, if the regime allows it. -/
theorem Regime.defineFunction_allows {G : Regime} (hG : G.Lawful) {m : Machine} {r : Routine Body}
    (h : ∀ {s}, m.scopes.defineFunction r = .ok s → G.Allows true m { m with scopes := s }) :
    G.Allows true m (after (Eval.defineFunction r) m) := by
  intro hm
  unfold after Eval.defineFunction
  cases hdefine : m.scopes.defineFunction r with
  | ok s => exact h hdefine hm
  | error e => exact ⟨hm, hG.weaken (hG.refl m)⟩

open Regime in
/-- **A request keeps to a lawful regime**, if the regime allows the functions that are defined,
and programs are run from the root. -/
theorem Request.watched_passes {G : Regime} (hG : G.Lawful) {w : Watched} (hw : G.Holds w.machine)
    {request : Request}
    (hdefine : ∀ r, request = .defineFunction r →
      G.Allows true w.machine (after (Eval.defineFunction r) w.machine))
    (hrun : ∀ p, request = .run p → w.machine.scopes.current = Scopes.root) (fuel : Nat) :
    G.Passes true w (request.watched fuel w) := by
  cases request with
  | defineVariable v => exact Obeys.basic hG (defineVariable_steps hG v) w hw
  | defineFunction r =>
    obtain ⟨hholds, hchange⟩ := hdefine r rfl hw
    exact .basic hG hholds hchange
  | execute s => exact Obeys.declaring hG ((obeysAt hG fuel).statement s fun _ _ => trivial) w hw
  | evaluate e => exact Obeys.weaken hG ((obeysAt hG fuel).expression e fun _ _ => trivial) w hw
  | invoke name arguments =>
    have hinvoke := Obeys.lookupFunction hG name arguments.length fun r hr =>
      (obeysAt hG fuel).call r arguments hr
    exact hinvoke.weaken hG w hw
  | run p => exact source_obeys hG fuel p w hw (hrun p rfl)

namespace Act

/-- The state after an act. -/
def perform (m : Machine) : Act → Machine
  | makeList elements => { m with heap := (m.heap.alloc elements).2 }
  | ask fuel request => request.serve fuel m

/-- The watched state after an act. -/
def watched (w : Watched) : Act → Watched
  | makeList elements => after (Watch.basic (Eval.allocList elements)) w
  | ask fuel request => request.watched fuel w

/-- A state that is met in an act: the first, the last, or one that is recorded. -/
def Meets (act : Act) (m m₁ : Machine) : Prop :=
  m₁ = m ∨ m₁ = act.perform m ∨
    ∃ moment ∈ (act.watched ⟨m, .ofBuiltins [], []⟩).record, m₁ = moment.machine

/-- Functions of the embedding program leave lists alone, and programs are run from the
root. -/
def PermittedIn (m : Machine) : Act → Prop
  | ask _ (.defineFunction r) => r.Conserves
  | ask _ (.run _) => m.scopes.current = Scopes.root
  | _ => True

/-- What is permitted depends on the current scope alone. -/
theorem PermittedIn.congr {act : Act} {m m' : Machine} (h : act.PermittedIn m)
    (hcurrent : m'.scopes.current = m.scopes.current) : act.PermittedIn m' := by
  unfold PermittedIn at h ⊢
  split at h
  · exact h
  · exact hcurrent.trans h
  · trivial

/-- An act is the same whether or not it is watched. -/
theorem watched_machine (w : Watched) (act : Act) :
    (act.watched w).machine = act.perform w.machine := by
  cases act with
  | makeList elements => exact ((Watch.Erases.basic _).after_eq w).symm
  | ask fuel request => exact request.watched_machine fuel w

open Regime in
/-- **An act keeps to the regime.** -/
theorem watched_passes {w : Watched} (hw : w.machine.Conserving) {act : Act}
    (hact : act.PermittedIn w.machine) : stable.Passes true w (act.watched w) := by
  have hG := stable_lawful
  cases act with
  | makeList elements =>
    exact (Obeys.basic hG (allocList_steps hG elements)).weaken hG w hw
  | ask fuel request =>
    refine Request.watched_passes hG hw (fun r hr => ?_) (fun p hp => ?_) fuel
    · subst hr
      exact defineFunction_allows hG (stable_defineFunction hact)
    · subst hp
      exact hact

/-- From a state to the one after an act, variables and lists last. -/
theorem perform_change {act : Act} {m : Machine} (hm : m.Conserving) (hact : act.PermittedIn m) :
    Regime.stable.Change true m (act.perform m) :=
  watched_machine ⟨m, .ofBuiltins [], []⟩ act ▸ (watched_passes hm hact).change

/-- After an act that is permitted, functions of the embedding program still conserve lists. -/
theorem perform_conserving {act : Act} {m : Machine} (hm : m.Conserving)
    (hact : act.PermittedIn m) : (act.perform m).Conserving :=
  watched_machine ⟨m, .ofBuiltins [], []⟩ act ▸ (watched_passes hm hact).holds

/-- Whatever is met in an act lasts until its end. -/
theorem Meets.stable {act : Act} {m m₁ : Machine} (h : act.Meets m m₁) (hm : m.Conserving)
    (hact : act.PermittedIn m) : m₁.Stable (act.perform m) := by
  obtain ⟨hframe, hstable⟩ := perform_change hm hact
  rcases h with rfl | rfl | ⟨moment, hmoment, rfl⟩
  · exact hstable
  · exact .refl _
  · rcases (watched_passes hm hact).lasting moment hmoment with hnone | ⟨-, hlast⟩
    · cases hnone
    · rw [watched_machine] at hlast
      exact hlast.of_leave (Nat.le_of_eq (congrArg Frame.depth hframe))

/-- In the midst of an act they do as well. -/
theorem Meets.conserving {act : Act} {m m₁ : Machine} (h : act.Meets m m₁) (hm : m.Conserving)
    (hact : act.PermittedIn m) : m₁.Conserving := by
  rcases h with rfl | rfl | ⟨moment, hmoment, rfl⟩
  · exact hm
  · exact perform_conserving hm hact
  · rcases (watched_passes hm hact).record moment hmoment with hnone | hholds
    · cases hnone
    · exact hholds

/-- The state after some acts. -/
def performAll (m : Machine) (acts : List Act) : Machine := acts.foldl perform m

/-- **Acts keep to the regime**, one after the other. -/
theorem performAll_change (acts : List Act) :
    ∀ {m : Machine}, m.Conserving → (∀ act ∈ acts, act.PermittedIn m) →
      Regime.stable.Change true m (performAll m acts) := by
  induction acts with
  | nil => exact fun _ _ => Regime.stable_lawful.refl _
  | cons act acts ih =>
    intro m hm hacts
    have hact := hacts act List.mem_cons_self
    have hchange := perform_change hm hact
    refine Regime.stable_lawful.trans hchange (ih (perform_conserving hm hact) ?_)
    intro later hlater
    exact (hacts later (List.mem_cons_of_mem act hlater)).congr
      (Regime.stable_lawful.current_eq hchange)

end Act

/-- The states that occur: before the first act, between acts, and in the midst of them.  An
act may begin in any of them. -/
inductive Machine.Occurs : Machine → Prop where
  | start (limit : Option Nat) : Occurs (.start limit)
  | meets {act : Act} {m m₁ : Machine} :
    Occurs m → act.PermittedIn m → act.Meets m m₁ → Occurs m₁

/-- In every state that occurs they do. -/
theorem Machine.Occurs.conserving {m : Machine} (h : m.Occurs) : m.Conserving := by
  induction h with
  | start limit =>
    intro i key r hr run hbody
    rw [functionAt_start hr] at hbody
    cases hbody
  | meets _ hact hmeets ih => exact hmeets.conserving ih hact

/-- **Bindings and lists are stable.**  In any state that occurs, be it between requests or in
the midst of one, let statements, expressions, calls or programs be run, with whatever outcome,
and anything else be done after that.  From every state that is met on the way to the last one,
a variable whose scope is still open keeps its name, its type and its mutability, and its value
if it is not mutable, and every list keeps its length. -/
theorem bindings_stable_of_occurs {m m₁ : Machine} {act : Act} {later : List Act}
    (hm : m.Occurs) (hacts : ∀ a ∈ act :: later, a.PermittedIn m) (hmeets : act.Meets m m₁) :
    m₁.Stable (Act.performAll (act.perform m) later) := by
  have hact := hacts act List.mem_cons_self
  have hcurrent := Regime.stable_lawful.current_eq (Act.perform_change hm.conserving hact)
  have hlater := Act.performAll_change later (Act.perform_conserving hm.conserving hact)
    fun a ha => (hacts a (List.mem_cons_of_mem act ha)).congr hcurrent
  exact (hmeets.stable hm.conserving hact).trans hlater.2
    (Nat.le_of_eq (congrArg Frame.depth hlater.1))

/-- After a run a function is called that writes to a list through another variable, and then
a variable is assigned that is not mutable: the first changes an element, and the second
nothing. -/
theorem bindings_stable_of_occurs_alias :
    ∃ p next, Pipeline.sourceFrom 0 "VAL limit: Integer = 3; LIST xs: Integer = [1, 2]; VAR ys = xs;
        FUN put(n: Integer): Integer DO ys[0] = n; RETURN xs[0]; END
        FUN main(): Integer DO RETURN put(limit); END" = .ok (p, next) ∧
      let put : Act := .ask 30 (.invoke "put" [.integer 7])
      let assign : Act :=
        .ask 30 (.execute (.assignment (.access 0 "limit") (.literal 1 (.integer 4))))
      let m := (Act.ask 30 (.run p)).perform (.start none)
      let m' := Act.performAll (put.perform m) [assign]
      m.Occurs ∧ (∀ a ∈ [put, assign], a.PermittedIn m) ∧
        m.scopes.variableAt 0 "limit" = some ⟨"limit", .integer, false, .integer 3⟩ ∧
          m.heap.elements 0 = [.integer 3, .integer 2] ∧
            m'.heap.elements 0 = [.integer 7, .integer 2] ∧ m.Stable m' := by
  obtain ⟨⟨p, next⟩, hread, hgood⟩ := exists_ok_of_any
    (fun ⟨p, _⟩ =>
      let m := (Act.ask 30 (.run p)).perform (.start none)
      let m' := Act.performAll ((Act.ask 30 (.invoke "put" [.integer 7])).perform m)
        [.ask 30 (.execute (.assignment (.access 0 "limit") (.literal 1 (.integer 4))))]
      m.scopes.variableAt 0 "limit" = some ⟨"limit", .integer, false, .integer 3⟩ &&
        m.heap.elements 0 = [.integer 3, .integer 2] &&
          m'.heap.elements 0 = [.integer 7, .integer 2])
    (show (Pipeline.sourceFrom 0 "VAL limit: Integer = 3; LIST xs: Integer = [1, 2]; VAR ys = xs;
        FUN put(n: Integer): Integer DO ys[0] = n; RETURN xs[0]; END
        FUN main(): Integer DO RETURN put(limit); END").toOption.any _ = true by decide +kernel)
  obtain ⟨⟨hlimit, hxs⟩, hys⟩ := (Bool.and_eq_true_iff.1 hgood).imp_left Bool.and_eq_true_iff.1
  have hrun : (Act.ask 30 (.run p)).PermittedIn (.start none) := rfl
  have hm : ((Act.ask 30 (.run p)).perform (.start none)).Occurs :=
    .meets (.start none) hrun (.inr (.inl rfl))
  refine ⟨p, next, hread, hm, ?_, of_decide_eq_true hlimit, of_decide_eq_true hxs,
    of_decide_eq_true hys, ?_⟩
  · simp [Act.PermittedIn]
  · exact bindings_stable_of_occurs hm (by simp [Act.PermittedIn]) (.inl rfl)

end Scriptlet
