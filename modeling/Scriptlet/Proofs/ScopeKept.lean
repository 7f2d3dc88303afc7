import Scriptlet.Proofs.Arena
import Scriptlet.Proofs.Regime
import Scriptlet.Proofs.RunState

/-!
# Scopes after a step

Scopes are opened by calls, branches, switches and every round of a loop, and a step can
end in the midst of them: it has a result, a `RETURN` passes through, or an error does.
`Scopes.Kept` says what is the same in all these cases.

| | after a step |
| --- | --- |
| how many scopes there are, the current one, all parents | as before |
| the names that a scope defines | as before, but a declaration adds to the current scope |
| the scope in which a name is found | as before, unless the step is a declaration |

It is a lawful regime, so it follows for every part of a program.  The program that embeds
the interpreter makes requests, one after the other; `Machine.Reachable` are the states
between them, and in all of them only the root is open.
-/

namespace Scriptlet

/-- A name that a scope can define. -/
inductive Name where
  | var (name : String)
  | function (name : String) (arity : Nat)

/-- Whether a scope defines a name. -/
def Scope.Defines {α β : Type} (scope : Scope α β) : Name → Prop
  | .var name => (scope.vars.find? name).isSome
  | .function name arity => (scope.functions.find? (name, arity)).isSome

namespace Scopes

variable {α β : Type}

/-- Whether the scope at a position defines a name. -/
def Defines (s : Scopes α β) (i : ScopeId) (name : Name) : Prop :=
  ∃ scope, s.scopes[i]? = some scope ∧ scope.Defines name

/-- The parent of the scope at a position, if there is such a scope. -/
def parentAt (s : Scopes α β) (i : ScopeId) : Option (Option ScopeId) :=
  s.scopes[i]?.map (·.parent)

/-- The scope in which a name is found from the current one. -/
def holder (s : Scopes α β) : Name → Option ScopeId
  | .var name => (s.resolve? fun scope => scope.vars.find? name).map Prod.fst
  | .function name arity =>
    (s.resolve? fun scope => scope.functions.find? (name, arity)).map Prod.fst

/-- One scope is changed, and all others are as they were. -/
theorem scopes_modify (s : Scopes α β) (id : ScopeId) (f : Scope α β → Scope α β) (i : ScopeId) :
    (s.modify id f).scopes[i]? = if id = i then s.scopes[i]?.map f else s.scopes[i]? := by
  by_cases hi : id = i <;> simp [Scopes.modify, hi]

/-- What a step keeps of the scopes; with `declares` it may define names in the current
one. -/
structure Kept (declares : Bool) (s s' : Scopes α β) : Prop where
  depth : s'.depth = s.depth
  current : s'.current = s.current
  parent : ∀ i, s'.parentAt i = s.parentAt i
  kept : ∀ i name, s.Defines i name → s'.Defines i name
  gained : ∀ i name, s'.Defines i name → s.Defines i name ∨ declares ∧ i = s.current

namespace Kept

variable {declares : Bool} {s s₁ s' : Scopes α β}

/-- Nothing happens to the scopes. -/
theorem refl (s : Scopes α β) : Kept declares s s :=
  ⟨rfl, rfl, fun _ => rfl, fun _ _ h => h, fun _ _ h => .inl h⟩

/-- One step after the other. -/
theorem trans (h : Kept declares s s₁) (h' : Kept declares s₁ s') : Kept declares s s' where
  depth := h'.depth.trans h.depth
  current := h'.current.trans h.current
  parent i := (h'.parent i).trans (h.parent i)
  kept i name hname := h'.kept i name (h.kept i name hname)
  gained i name hname := by
    rcases h'.gained i name hname with hold | ⟨hdeclares, hi⟩
    · exact h.gained i name hold
    · exact .inr ⟨hdeclares, hi.trans h.current⟩

/-- A step that declares nothing may stand where declarations are allowed. -/
theorem weaken (h : Kept false s s') : Kept true s s' where
  depth := h.depth
  current := h.current
  parent := h.parent
  kept := h.kept
  gained i name hname := by
    rcases h.gained i name hname with hold | ⟨hfalse, -⟩
    · exact .inl hold
    · cases hfalse

/-- One scope is changed, and keeps its parent and its names. -/
theorem modify (s : Scopes α β) (id : ScopeId) {f : Scope α β → Scope α β}
    (hparent : ∀ scope, (f scope).parent = scope.parent)
    (hkept : ∀ scope name, scope.Defines name → (f scope).Defines name)
    (hgained : ∀ scope name, s.scopes[id]? = some scope → (f scope).Defines name →
      scope.Defines name ∨ declares ∧ id = s.current) :
    Kept declares s (s.modify id f) := by
  have hscopes := s.scopes_modify id f
  refine ⟨by simp [Scopes.modify, Scopes.depth], rfl, fun i => ?_, fun i name => ?_,
    fun i name => ?_⟩
  · rw [parentAt, hscopes]
    split
    · simp [parentAt, Function.comp_def, hparent]
    · rfl
  · rintro ⟨scope, hscope, hname⟩
    rw [Scopes.Defines, hscopes, hscope]
    split
    · exact ⟨f scope, rfl, hkept scope name hname⟩
    · exact ⟨scope, rfl, hname⟩
  · rintro ⟨scope, hscope, hname⟩
    rw [hscopes] at hscope
    split at hscope
    · rename_i hi
      subst hi
      obtain ⟨before, hbefore, rfl⟩ := Option.map_eq_some_iff.1 hscope
      exact (hgained before name hbefore hname).imp (fun h => ⟨before, hbefore, h⟩) fun h => h
    · exact .inl ⟨scope, hscope, hname⟩

/-- After an entry was made there are those from before and the new one. -/
theorem insert_isSome {κ γ : Type} [DecidableEq κ] (t : Table κ γ) (k k' : κ) (a : γ) :
    ((t.insert k a).find? k').isSome ↔ k = k' ∨ (t.find? k').isSome := by
  rw [Table.find?_insert]
  split <;> simp_all

/-- A variable is added to the current scope. -/
theorem defineVariable {v : Variable α} (h : s.defineVariable v = .ok s') : Kept true s s' := by
  rw [Scopes.defineVariable] at h
  split at h
  · cases h
  cases h
  refine modify s s.current (fun _ => rfl) (fun scope name hname => ?_) fun _ _ _ _ =>
    .inr ⟨rfl, rfl⟩
  cases name with
  | var name => exact (insert_isSome ..).2 (.inr hname)
  | function name arity => exact hname

/-- A function is added to the current scope. -/
theorem defineFunction {r : Routine β} (h : s.defineFunction r = .ok s') : Kept true s s' := by
  rw [Scopes.defineFunction] at h
  split at h
  · cases h
  cases h
  refine modify s s.current (fun _ => rfl) (fun scope name hname => ?_) fun _ _ _ _ =>
    .inr ⟨rfl, rfl⟩
  cases name with
  | var name => exact hname
  | function name arity => exact (insert_isSome ..).2 (.inr hname)

/-- An assignment stores under a name that the scope already has. -/
theorem assign {name : String} {value : α} (h : s.assign? name value = some s') :
    Kept false s s' := by
  rw [Scopes.assign?] at h
  split at h
  · cases h
  rename_i id v hresolve
  cases h
  obtain ⟨found, hfound, hvar⟩ := scope_of_search s.depth hresolve
  refine modify s id (fun _ => rfl) (fun scope name' hname => ?_) fun scope name' hscope hname => ?_
  · cases name' with
    | var name' => exact (insert_isSome ..).2 (.inr hname)
    | function name' arity => exact hname
  · obtain rfl : scope = found := Option.some.inj (hscope.symm.trans hfound)
    refine .inl ?_
    cases name' with
    | var name' =>
      rcases (insert_isSome ..).1 hname with rfl | hold
      · exact Option.isSome_of_eq_some hvar
      · exact hold
    | function name' arity => exact hname

/-- The scopes from before stay when one is opened. -/
theorem scopes_enter (s : Scopes α β) (parent : ScopeId) {i : ScopeId} (hi : i < s.depth) :
    (s.enter parent).scopes[i]? = s.scopes[i]? :=
  List.getElem?_append_left hi

/-- The scopes before the frame stay when scopes are left, and the others are gone. -/
theorem scopes_leave (s : Scopes α β) (frame : Frame) (i : ScopeId) :
    (s.leave frame).scopes[i]? = if i < frame.depth then s.scopes[i]? else none :=
  List.getElem?_take

/-- After scopes are left, names are defined in those that stay. -/
theorem defines_leave {frame : Frame} {i : ScopeId} {name : Name} :
    (s.leave frame).Defines i name ↔ i < frame.depth ∧ s.Defines i name := by
  rw [Scopes.Defines, scopes_leave]
  split
  · exact ⟨fun h => ⟨‹_›, h⟩, fun h => h.2⟩
  · refine ⟨fun h => ?_, fun h => absurd h.1 ‹_›⟩
    obtain ⟨_, hnone, -⟩ := h
    cases hnone

/-- **Scopes that are closed leave no trace**, whatever they defined. -/
theorem close (frame : Frame) (hcurrent : frame.depth ≤ s.current) (h : Kept true s s') :
    Kept false (s.leave frame) (s'.leave frame) := by
  refine ⟨?_, rfl, fun i => ?_, fun i name hname => ?_, fun i name hname => .inl ?_⟩
  · have hdepth := h.depth
    simp only [Scopes.depth, Scopes.leave, List.length_take] at hdepth ⊢
    rw [hdepth]
  · have hparent := h.parent i
    rw [parentAt, parentAt, scopes_leave, scopes_leave]
    split
    · exact hparent
    · rfl
  · obtain ⟨hi, hold⟩ := defines_leave.1 hname
    exact defines_leave.2 ⟨hi, h.kept i name hold⟩
  · obtain ⟨hi, hnew⟩ := defines_leave.1 hname
    rcases h.gained i name hnew with hold | ⟨-, hat⟩
    · exact defines_leave.2 ⟨hi, hold⟩
    · exact absurd (hat ▸ hcurrent) (Nat.not_le.2 hi)

/-- What a step defines in a scope of its own is gone when the scope is closed. -/
theorem leave {parent : ScopeId} (h : Kept true (s.enter parent) s') :
    Kept false s (s'.leave s.frame) := by
  have hclosed := close s.frame (Nat.le_refl _) h
  rwa [leave_enter] at hclosed

/-- After a step the same frame would be given. -/
theorem frame (h : Kept declares s s') : s'.frame = s.frame := by
  rw [Scopes.frame, Scopes.frame, h.depth, h.current]

/-! ### Where names are found -/

/-- A search finds a name in the same scope if all scopes have the names that they had. -/
theorem search_fst {γ : Type} {get : Scope α β → Option γ} (h : Kept false s s')
    (hget : ∀ i : ScopeId, (∃ scope, s'.scopes[i]? = some scope ∧ (get scope).isSome) ↔
      ∃ scope, s.scopes[i]? = some scope ∧ (get scope).isSome) (n : Nat) :
    ∀ id, (s'.search get n id).map Prod.fst = (s.search get n id).map Prod.fst := by
  induction n with
  | zero => exact fun _ => rfl
  | succ n ih =>
    intro id
    have hparent := h.parent id
    have hfinds := hget id
    rw [parentAt, parentAt] at hparent
    rw [Scopes.search, Scopes.search]
    cases hs : s.scopes[id]? with
    | none =>
      rw [hs, Option.map_none, Option.map_eq_none_iff] at hparent
      rw [hparent]
    | some scope =>
      rw [hs, Option.map_some, Option.map_eq_some_iff] at hparent
      obtain ⟨scope', hs', hp⟩ := hparent
      have hsome : (get scope').isSome ↔ (get scope).isSome := by simpa [hs, hs'] using hfinds
      rw [hs']
      simp only [hp]
      cases hg : get scope with
      | some found =>
        obtain ⟨found', hg'⟩ := Option.isSome_iff_exists.1 (hsome.2 (hg ▸ rfl))
        simp [hg']
      | none =>
        have hg' : get scope' = none := by simpa [hg] using hsome
        rw [hg']
        cases scope.parent with
        | none => rfl
        | some parent => exact ih parent

/-- **Where a name is found is the same** after a step that is no declaration. -/
theorem holder (h : Kept false s s') (name : Name) : s'.holder name = s.holder name := by
  have hdefines : ∀ i, s'.Defines i name ↔ s.Defines i name := by
    intro i
    refine ⟨fun hname => ?_, h.kept i name⟩
    rcases h.gained i name hname with hold | ⟨hfalse, -⟩
    · exact hold
    · cases hfalse
  cases name with
  | var name =>
    rw [Scopes.holder, Scopes.resolve?, h.depth, h.current]
    exact search_fst h hdefines _ _
  | function name arity =>
    rw [Scopes.holder, Scopes.resolve?, h.depth, h.current]
    exact search_fst h hdefines _ _

end Kept
end Scopes

/-! ### The regime -/

/-- All steps keep the scopes. -/
def Regime.scopesKept : Regime where
  Holds _ := True
  Change declares m m' := Scopes.Kept declares m.scopes m'.scopes
  Callable _ := True

/-- Scopes are kept by the basic steps, and a scope that is opened is closed again. -/
theorem Regime.scopesKept_lawful : Regime.scopesKept.Lawful where
  refl m := .refl m.scopes
  trans h h' := h.trans h'
  weaken h := h.weaken
  frame h := h.frame
  close frame _ _ hcurrent h := .close frame hcurrent h
  callable _ _ := trivial
  declare h _ := ⟨trivial, .defineVariable h⟩
  function _ h _ := ⟨trivial, .defineFunction h⟩
  assign _ _ h _ := ⟨trivial, .assign h⟩
  alloc m _ _ := ⟨trivial, .refl m.scopes⟩
  write m _ _ _ _ := ⟨trivial, .refl m.scopes⟩
  native {m} _ _ _ _ _ _ _ _ _ := ⟨trivial, .refl m.scopes⟩
  print m _ _ := ⟨trivial, .refl m.scopes⟩
  scope _ _ := ⟨trivial, fun _ _ _ => trivial⟩

section Parts

open Regime

variable (fuel : Nat) (m : Machine)

/-- An expression keeps the scopes, however it ends. -/
theorem expression_kept (e : Expr) :
    Scopes.Kept false m.scopes (after (Eval.expression fuel e) m).scopes :=
  ((stepsAt scopesKept_lawful fuel).expression e (fun _ _ => trivial) m trivial).2

/-- A call keeps the scopes, however it ends. -/
theorem call_kept (r : Routine Body) (arguments : List Object) :
    Scopes.Kept false m.scopes (after (Eval.call fuel r arguments) m).scopes :=
  ((stepsAt scopesKept_lawful fuel).call r arguments trivial m trivial).2

/-- A statement keeps the scopes; a declaration adds to the current one. -/
theorem statement_kept (s : Stmt) :
    Scopes.Kept s.declares m.scopes (after (Eval.statement fuel s) m).scopes :=
  ((stepsAt scopesKept_lawful fuel).statement s (fun _ _ => trivial) m trivial).2

/-- A program that is run from the root adds its globals and functions to the root. -/
theorem source_kept (hroot : m.scopes.current = Scopes.root) (p : Source) :
    Scopes.Kept true m.scopes (after (Eval.source fuel p) m).scopes := by
  have hpasses := source_obeys scopesKept_lawful fuel p ⟨m, .ofBuiltins [], []⟩ trivial hroot
  have hafter := (Watch.source_erases fuel p).after_eq ⟨m, .ofBuiltins [], []⟩
  exact hafter ▸ hpasses.change

end Parts

/-! ### Requests -/

/-- What the embedding program can ask for. -/
inductive Request where
  | defineVariable (v : Variable Object)
  | defineFunction (r : Routine Body)
  | execute (s : Stmt)
  | evaluate (e : Expr)
  | invoke (name : String) (arguments : List Object)
  | run (p : Source)

namespace Request

/-- The state after a request, whatever its outcome. -/
def serve (fuel : Nat) (m : Machine) : Request → Machine
  | defineVariable v => after (Eval.defineVariable v) m
  | defineFunction r => after (Eval.defineFunction r) m
  | execute s => after (Eval.execute fuel s) m
  | evaluate e => after (Eval.expression fuel e) m
  | invoke name arguments => after (Eval.invoke fuel name arguments) m
  | run p => after (Eval.source fuel p) m

/-- Whether a request can define names. -/
def declares : Request → Bool
  | defineVariable _ | defineFunction _ | run _ => true
  | execute s => s.declares
  | evaluate _ | invoke _ _ => false

/-- A function of the embedding program is added to the current scope, or its name is taken. -/
theorem defineFunction_kept (m : Machine) (r : Routine Body) :
    Scopes.Kept true m.scopes (after (Eval.defineFunction r) m).scopes := by
  unfold after Eval.defineFunction
  cases hdefine : m.scopes.defineFunction r with
  | ok s => exact .defineFunction hdefine
  | error e => exact .refl m.scopes

/-- A statement that is run on its own keeps the scopes, also if it returns. -/
theorem execute_kept (fuel : Nat) (m : Machine) (s : Stmt) :
    Scopes.Kept s.declares m.scopes (after (Eval.execute fuel s) m).scopes := by
  have hexecute : Regime.scopesKept.Steps s.declares (Eval.execute fuel s) := by
    have hstatement := (Regime.stepsAt Regime.scopesKept_lawful fuel).statement s fun _ _ => trivial
    refine Regime.Steps.bind Regime.scopesKept_lawful hstatement fun _ flow _ _ _ m hm => ?_
    have hkept : Scopes.Kept s.declares m.scopes m.scopes := .refl m.scopes
    cases flow with
    | next => exact ⟨hm, hkept⟩
    | returned value => exact ⟨hm, hkept⟩
  exact (hexecute m trivial).2

/-- A function that is called by its name keeps the scopes, also if there is none. -/
theorem invoke_kept (fuel : Nat) (m : Machine) (name : String) (arguments : List Object) :
    Scopes.Kept false m.scopes (after (Eval.invoke fuel name arguments) m).scopes := by
  have hinvoke : Regime.scopesKept.Steps false (Eval.invoke fuel name arguments) :=
    (Regime.lookupFunction_steps Regime.scopesKept_lawful name arguments.length).bind
      Regime.scopesKept_lawful fun _ r _ _ _ m hm => ⟨hm, call_kept fuel m r arguments⟩
  exact (hinvoke m trivial).2

/-- A request that is made in the root keeps the scopes. -/
theorem serve_kept (fuel : Nat) {m : Machine} (hroot : m.scopes.current = Scopes.root)
    (request : Request) :
    Scopes.Kept request.declares m.scopes (request.serve fuel m).scopes := by
  cases request with
  | defineVariable v =>
    exact (Regime.defineVariable_steps Regime.scopesKept_lawful v m trivial).2
  | defineFunction r => exact defineFunction_kept m r
  | execute s => exact execute_kept fuel m s
  | evaluate e => exact expression_kept fuel m e
  | invoke name arguments => exact invoke_kept fuel m name arguments
  | run p => exact source_kept fuel m hroot p

end Request

/-- The states between requests. -/
inductive Machine.Reachable : Machine → Prop where
  | start (limit : Option Nat) : Reachable (.start limit)
  | serve {m : Machine} (fuel : Nat) (request : Request) :
    Reachable m → Reachable (request.serve fuel m)

/-- **Between requests only the root is open.** -/
theorem Machine.Reachable.at_root {m : Machine} (h : m.Reachable) :
    m.scopes.depth = 1 ∧ m.scopes.current = Scopes.root := by
  induction h with
  | start limit => exact ⟨rfl, rfl⟩
  | serve fuel request _ ih =>
    have hkept := request.serve_kept fuel ih.2
    exact ⟨hkept.depth.trans ih.1, hkept.current.trans ih.2⟩

/-- **Every step closes the scopes that it opens, however it ends.**  Between requests only
the root is open, and a request keeps the scopes.  In whatever state a statement, an
expression or a call is run, within a request or on its own, the scopes are kept as well;
only a local declaration defines a name, and it does so in the current scope.  After any
other statement, and so after a branch, a switch or a loop, and after an expression or a
call, every name is found where it was found before, or nowhere as before. -/
theorem scopes_kept_of_reachable {m : Machine} (hm : m.Reachable) (fuel : Nat) :
    (m.scopes.depth = 1 ∧ m.scopes.current = Scopes.root) ∧
    (∀ request : Request,
      Scopes.Kept request.declares m.scopes (request.serve fuel m).scopes) ∧
    ∀ m' : Machine,
      (∀ s : Stmt, Scopes.Kept s.declares m'.scopes (after (Eval.statement fuel s) m').scopes ∧
        (s.declares = false → ∀ name,
          (after (Eval.statement fuel s) m').scopes.holder name = m'.scopes.holder name)) ∧
      (∀ e : Expr, Scopes.Kept false m'.scopes (after (Eval.expression fuel e) m').scopes ∧
        ∀ name, (after (Eval.expression fuel e) m').scopes.holder name = m'.scopes.holder name) ∧
      ∀ (r : Routine Body) (arguments : List Object),
        Scopes.Kept false m'.scopes (after (Eval.call fuel r arguments) m').scopes ∧
        ∀ name, (after (Eval.call fuel r arguments) m').scopes.holder name =
          m'.scopes.holder name := by
  refine ⟨hm.at_root, fun request => request.serve_kept fuel hm.at_root.2, fun m' => ⟨?_, ?_, ?_⟩⟩
  · intro s
    have hkept := statement_kept fuel m' s
    refine ⟨hkept, fun hdeclares name => ?_⟩
    rw [hdeclares] at hkept
    exact hkept.holder name
  · intro e
    have hkept := expression_kept fuel m' e
    exact ⟨hkept, hkept.holder⟩
  · intro r arguments
    have hkept := call_kept fuel m' r arguments
    exact ⟨hkept, hkept.holder⟩

/-- A branch declares a variable and returns it to nowhere: the variable is gone. -/
theorem scopes_kept_of_reachable_returning_branch :
    (Machine.start none).Reachable ∧
      (after (Eval.statement 5 (.ifElse (.literal 0 (.boolean true))
        [.declaration 1 "x" none none, .returnWith (.access 2 "x")] []))
        (Machine.start none)).scopes.holder (.var "x") = none :=
  ⟨.start none, (((scopes_kept_of_reachable (.start none) 5).2.2 (.start none)).1 _).2 rfl _⟩

end Scriptlet
