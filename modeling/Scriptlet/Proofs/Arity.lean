import Scriptlet.Proofs.Fuel
import Scriptlet.Proofs.Session
import Scriptlet.Proofs.Stable

/-!
# Calls have the right number of arguments

A call fails if the number of its arguments is not that of the parameters.  But a function is
looked up by the number of the arguments, and it is stored under the number of its parameters.
That everything is stored under its own name is a lawful regime (`Regime.keyed`), and under it no
step fails in this way (`Counts`): in an expression the arguments are evaluated after the function
was found, and there are as many values as there are arguments.
-/

namespace Scriptlet

/-! ### The regime -/

/-- Everything stays stored under its own name. -/
def Regime.keyed : Regime where
  Holds m := m.scopes.Keyed
  Change declares m m' := Scopes.Kept declares m.scopes m'.scopes
  Callable _ := True

/-- Nothing that a program does stores anything under another name. -/
theorem Regime.keyed_lawful : Regime.keyed.Lawful where
  refl m := .refl m.scopes
  trans h h' := h.trans h'
  weaken h := h.weaken
  frame h := h.frame
  close frame _ _ hcurrent h := .close frame hcurrent h
  callable _ _ := trivial
  declare h hm := ⟨hm.defineVariable h, .defineVariable h⟩
  function _ h hm := ⟨hm.defineFunction h, .defineFunction h⟩
  assign _ _ h hm := ⟨hm.assign h, .assign h⟩
  alloc m _ hm := ⟨hm, .refl m.scopes⟩
  write m _ _ _ hm := ⟨hm, .refl m.scopes⟩
  native {m} _ _ _ _ _ _ _ _ hm := ⟨hm, .refl m.scopes⟩
  print m _ hm := ⟨hm, .refl m.scopes⟩
  scope {_ parent} hm _ := ⟨hm.enter parent, fun _ hm' _ => hm'.leave _⟩

/-! ### Steps -/

/-- An outcome other than a wrong number of arguments. -/
def Counted {α : Type} (result : EStateM.Result Halt Machine α) : Prop :=
  ∀ name expected found m, result ≠ .error (.error (.arityMismatch name expected found)) m

/-- The step does not fail for a wrong number of arguments if everything is stored under its own
name. -/
def Counts {α : Type} (x : Eval α) : Prop := ∀ m, m.scopes.Keyed → Counted (x m)

namespace Counts

open Regime

variable {α β : Type} {x : Eval α}

/-- What comes after a step may rely on its result, and on everything being stored under its own
name. -/
theorem bind {declares : Bool} {f : α → Eval β} (hkeyed : keyed.Steps declares x)
    (hx : Counts x) (hf : ∀ m a m', m.scopes.Keyed → x m = .ok a m' → Counts (f a)) :
    Counts (x >>= f) := by
  intro m hm
  obtain ⟨hholds, -⟩ := hkeyed m hm
  cases hxm : x m with
  | ok a m₁ =>
    rw [after_eq hxm] at hholds
    rw [bind_eq hxm]
    exact hf m a m₁ hm hxm m₁ hholds
  | error halt m₁ =>
    rw [bind_eq_error hxm]
    intro name expected found m' h
    cases h
    exact hx m hm name expected found m₁ hxm

/-- A step that looks at the lists fails for another reason. -/
theorem reads {f : Heap → Except EvalError α}
    (hf : ∀ h name expected found, f h ≠ .error (.arityMismatch name expected found)) :
    Counts (Eval.reads f) := by
  intro m _ name expected found m' hfail
  unfold Eval.reads at hfail
  cases hread : f m.heap with
  | ok a =>
    rw [hread] at hfail
    cases hfail
  | error e =>
    rw [hread] at hfail
    cases hfail
    exact hf m.heap name expected found hread

/-- A variable that is not found is no wrong number of arguments. -/
theorem lookupVariable (name : String) : Counts (Eval.lookupVariable name) := by
  intro m _
  unfold Eval.lookupVariable
  cases m.scopes.findVariable? name <;> exact nofun

/-- A function that is not found is no wrong number of arguments. -/
theorem lookupFunction (name : String) (n : Nat) : Counts (Eval.lookupFunction name n) := by
  intro m _
  unfold Eval.lookupFunction
  cases m.scopes.findFunction? name n <;> exact nofun

/-- A name that is taken is no wrong number of arguments. -/
theorem defineVariable (v : Variable Object) : Counts (Eval.defineVariable v) := by
  intro m _
  unfold Eval.defineVariable
  cases m.scopes.defineVariable v <;> exact nofun

/-- A variable that may not be changed is no wrong number of arguments. -/
theorem assignVariable (name : String) (value : Object) :
    Counts (Eval.assignVariable name value) := by
  intro m _
  rw [Eval.assignVariable_eq]
  cases m.scopes.findVariable? name with
  | none => exact nofun
  | some v => cases hmutable : v.mutable <;> simp only [hmutable] <;> exact nofun

/-- An output that is full is no wrong number of arguments. -/
theorem printLine (o : Object) : Counts (Eval.printLine o) := by
  intro m _
  unfold Eval.printLine
  dsimp only
  split <;> exact nofun

/-- A function of the embedding program fails with an error of its own. -/
theorem callNative (name : String) (run : Native) (arguments : List Object) :
    Counts (Eval.callNative name run arguments) := by
  intro m _
  unfold Eval.callNative
  cases run m.heap arguments <;> exact nofun

/-- A scope is opened before the step, in which nothing is stored, and closed after it. -/
theorem inScopeOf (parent : ScopeId) (hx : Counts x) : Counts (Eval.inScopeOf parent x) := by
  intro m hm
  have hinner := hx { m with scopes := m.scopes.enter parent } (hm.enter parent)
  unfold Eval.inScopeOf
  cases hxm : x { m with scopes := m.scopes.enter parent } with
  | ok a m' => exact nofun
  | error halt m' =>
    intro name expected found m'' h
    cases h
    exact hinner name expected found m' hxm

/-- Steps that are put together do not fail for a wrong number of arguments if what they are made
of does not: a function is found under the number of its parameters. -/
theorem relying : keyed.Relying (fun r n => r.arity = n) Counts where
  bind := bind
  reads _ hf := reads hf
  outOfFuel _ _ := nofun
  lookupVariable := lookupVariable
  assignVariable := assignVariable
  defineVariable := defineVariable
  allocList _ _ _ := nofun
  write _ _ _ _ _ := nofun
  printLine := printLine
  callNative := callNative
  lookupFunction := lookupFunction
  callable hm hfind := (hm.findFunction? hfind).2
  mismatch hr hn := absurd hr.symm hn
  inScope hx m := inScopeOf m.scopes.current hx m
  inScopeOf _ _ hx := inScopeOf _ hx

end Counts

/-! ### Parts of programs -/

/-- **No part of a program fails for a wrong number of arguments.** -/
theorem countsAt (fuel : Nat) :
    (Regime.keyed.relying (fun r n => r.arity = n) Counts).RelAt fuel fuel :=
  Counts.relying.relAt Regime.keyed_lawful fuel

/-- A function that is called by its name gets the right number of arguments. -/
theorem invoke_counts (fuel : Nat) (name : String) (arguments : List Object) :
    Counts (Eval.invoke fuel name arguments) :=
  ((Counts.relying.lawful Regime.keyed_lawful).lookupFunction name arguments.length fun r hr =>
    (countsAt fuel).call r arguments hr).2

/-! ### Requests -/

/-- A request leaves everything stored under its own name, if programs are run from the root. -/
theorem Request.watched_keyed {w : Watched} (hw : w.machine.scopes.Keyed) (fuel : Nat)
    (request : Request) (hrun : ∀ p, request = .run p → w.machine.scopes.current = Scopes.root) :
    Regime.keyed.Passes true w (request.watched fuel w) :=
  Request.watched_passes Regime.keyed_lawful hw
    (fun _ _ => Regime.defineFunction_allows Regime.keyed_lawful fun h hm =>
      ⟨hm.defineFunction h, .defineFunction h⟩)
    hrun fuel

/-- Between requests everything is stored under its own name. -/
theorem Machine.Reachable.keyed {m : Machine} (h : m.Reachable) : m.scopes.Keyed := by
  induction h with
  | start limit => exact .ofBuiltins _
  | serve fuel request hm ih =>
    rw [← Request.watched_machine fuel ⟨_, .ofBuiltins [], []⟩]
    exact (Request.watched_keyed ih fuel request fun _ _ => hm.at_root.2).holds

/-- Between requests and in the midst of them everything is stored under its own name. -/
theorem Act.Meets.keyed {fuel : Nat} {request : Request} {m m₁ : Machine}
    (h : (Act.ask fuel request).Meets m m₁) (hm : m.Reachable) : m₁.scopes.Keyed := by
  rcases h with rfl | rfl | ⟨moment, hmoment, rfl⟩
  · exact hm.keyed
  · exact (Machine.Reachable.serve fuel request hm).keyed
  · have hpasses := Request.watched_keyed (w := ⟨m, .ofBuiltins [], []⟩) hm.keyed fuel request
      fun _ _ => hm.at_root.2
    rcases hpasses.record moment hmoment with hnone | hkeyed
    · cases hnone
    · exact hkeyed

/-- **Arenas are well formed, whatever is done to them.**  Let scopes be entered below open ones
and left in stack order, let names be defined and variables be assigned, in any order, with or
without success.  Then the current scope is open, the root has no parent, and every other scope
has one that is older; everything is stored under its own name.  So a lookup visits open scopes
only, at most as many as there are, and ends at the root at the latest, and it finds what was
looked for.

Hence calls have the right number of arguments: wherever everything is stored under its own name,
neither the invocation of a function nor an expression fails for that reason.  This is so in every
state that is met when requests are served, between them and in their midst. -/
theorem arena_wellFormed_under_operations :
    (∀ {α β : Type} (builtins : List (Routine β)) (ops : List (Scopes.Op α β)),
      (Scopes.Session.start builtins).AllowsAll ops →
        let s := ((Scopes.Session.start builtins).performAll ops).scopes
        s.WellFormed ∧ s.Keyed ∧ ∃ path, s.LooksUp path) ∧
    (∀ m : Machine, m.scopes.Keyed → ∀ fuel,
      (∀ name arguments, Counted (Eval.invoke fuel name arguments m)) ∧
        ∀ e, Counted (Eval.expression fuel e m)) ∧
    ∀ (m m₁ : Machine) (fuel : Nat) (request : Request), m.Reachable →
      (Act.ask fuel request).Meets m m₁ → m₁.scopes.Keyed := by
  refine ⟨fun builtins ops hops => ?_, fun m hm fuel => ⟨fun name arguments => ?_, fun e => ?_⟩,
    fun _ _ _ _ hm hmeets => hmeets.keyed hm⟩
  · have hsound := (Scopes.Session.Sound.start builtins).performAll hops
    exact ⟨hsound.wellFormed, hsound.keyed, hsound.wellFormed.exists_looksUp hsound.keyed⟩
  · exact invoke_counts fuel name arguments m hm
  · exact ((countsAt fuel).expression e fun _ _ => trivial).2 m hm

/-- Two scopes are left at once, and the position of the second is used again, below the root and
no longer below the first.  A function that is defined by the embedding program is invoked with
too many arguments. -/
theorem arena_wellFormed_under_operations_position_reused :
    let ops : List (Scopes.Op Nat Unit) := [.enter 0, .enter 1,
      .defineVariable ⟨"x", .integer, true, 1⟩, .enter 2, .leave 1, .enter 0,
      .defineFunction (.named "f" [.any] .nil ()), .defineFunction (.named "f" [.any] .nil ()),
      .assign "x" 2]
    let t : Scopes.Session Nat Unit := .start [.print ()]
    let s := (t.performAll ops).scopes
    let f : Routine Body := .named "f" [.any] .nil .unbound
    let m := (Request.defineFunction f).serve 0 (.start none)
    t.AllowsAll ops ∧
      (s.depth = 3 ∧ s.parentAt 2 = some (some 0) ∧ s.WellFormed ∧ s.Keyed ∧
        ∃ path, s.LooksUp path) ∧
      (Machine.start none).Reachable ∧ m.scopes.Keyed ∧
        Counted (Eval.invoke 5 "f" [.integer 1, .integer 2] m) ∧
          Counted (Eval.expression 5 (.call 0 "f" [.access 1 "y"]) m) := by
  intro ops t s f m
  have hops : t.AllowsAll ops := by decide
  obtain ⟨harena, hcounts, hkeyed⟩ := arena_wellFormed_under_operations
  have hs := harena [.print ()] ops hops
  have hm : m.scopes.Keyed :=
    hkeyed (.start none) m 0 (.defineFunction f) (.start none) (.inr (.inl rfl))
  have hdepth : s.depth = 3 := by decide
  have hparent : s.parentAt 2 = some (some 0) := by decide
  have hinvoke := (hcounts m hm 5).1 "f" [.integer 1, .integer 2]
  have hcall := (hcounts m hm 5).2 (.call 0 "f" [.access 1 "y"])
  exact ⟨hops, ⟨hdepth, hparent, hs⟩, .start none, hm, hinvoke, hcall⟩

end Scriptlet
