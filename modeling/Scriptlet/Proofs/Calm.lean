import Scriptlet.Proofs.Fuel
import Scriptlet.Proofs.Lexical

/-!
# Calm states

`Calm F` are states in which the root has the functions `F` and there is no list.  Functions
are defined before any of them is called, so the root keeps them while bodies run, and without
list literals there is never a list.

`Terminates F` says of a step that it finishes in a calm state and that the state after it is
calm, with the same scopes open.  All basic steps but the making of a list do.
-/

namespace Scriptlet

/-- What is defined in the root. -/
abbrev FunctionTable := Table (String × Nat) (Routine Body)

/-- A state in which the root has certain functions and there is no list. -/
structure Calm (F : FunctionTable) (m : Machine) : Prop where
  lexical : m.scopes.Lexical
  functions : m.scopes.scopes[Scopes.root]?.map (·.functions) = some F
  heap : m.heap = .empty

/-- In a calm state a step finishes and leaves a calm state with the same scopes open. -/
def Terminates {α : Type} (F : FunctionTable) (x : Eval α) : Prop :=
  ∀ m, Calm F m →
    Finished (x m) ∧ Calm F (after x m) ∧ Scopes.Kept true m.scopes (after x m).scopes

variable {F : FunctionTable} {α β : Type}

/-- A change that leaves the functions of a scope alone leaves all of them alone. -/
theorem Scopes.functions_modify (s : Scopes Object Body) (id i : ScopeId)
    {f : Scope Object Body → Scope Object Body}
    (hf : ∀ scope, (f scope).functions = scope.functions) :
    (s.modify id f).scopes[i]?.map (·.functions) = s.scopes[i]?.map (·.functions) := by
  rw [Scopes.modify, List.getElem?_modify]
  cases s.scopes[i]? with
  | none => rfl
  | some scope =>
    by_cases hid : id = i
    · simp [hid, hf]
    · simp [hid]

/-- To define a variable leaves all functions alone. -/
theorem Scopes.functions_defineVariable {s s' : Scopes Object Body} {v : Variable Object}
    (h : s.defineVariable v = .ok s') (i : ScopeId) :
    s'.scopes[i]?.map (·.functions) = s.scopes[i]?.map (·.functions) := by
  rw [Scopes.defineVariable] at h
  split at h
  · cases h
  · obtain rfl := Except.ok.inj h
    exact s.functions_modify s.current i fun _ => rfl

/-- An assignment leaves all functions alone. -/
theorem Scopes.functions_assign {s s' : Scopes Object Body} {name : String} {value : Object}
    (h : s.assign? name value = some s') (i : ScopeId) :
    s'.scopes[i]?.map (·.functions) = s.scopes[i]?.map (·.functions) := by
  rw [Scopes.assign?] at h
  split at h
  · cases h
  · obtain rfl := Option.some.inj h
    exact s.functions_modify _ i fun _ => rfl

/-- In a calm state a function is looked up in the root. -/
theorem Calm.findFunction? {m : Machine} (hm : Calm F m) (name : String) (n : Nat) :
    m.scopes.findFunction? name n = F.find? (name, n) := by
  obtain ⟨scope, hscope, rfl⟩ := Option.map_eq_some_iff.1 hm.functions
  rw [hm.lexical.findFunction?_eq, hscope, Option.bind_some]

/-- A scope that is opened below another has no functions, and is gone when it is closed. -/
theorem Calm.enter {m : Machine} (hm : Calm F m) {parent : ScopeId}
    (hparent : parent < m.scopes.depth) : Calm F (m.enter parent) where
  lexical := hm.lexical.enter hparent
  functions := by
    have hpos : Scopes.root < m.scopes.depth := hm.lexical.wellFormed.depth_pos
    show (m.scopes.enter parent).scopes[Scopes.root]?.map (·.functions) = some F
    rw [Scopes.Kept.scopes_enter m.scopes parent hpos]
    exact hm.functions
  heap := hm.heap

/-- After a step in a scope of its own, the state without the scope is calm. -/
theorem Calm.leave {m m' : Machine} (hm : Calm F m) {parent : ScopeId} (hm' : Calm F m')
    (hkept : Scopes.Kept true (m.enter parent).scopes m'.scopes) :
    Calm F (m'.leave m.scopes.frame) where
  lexical := hm.lexical.leave hm'.lexical hkept
  functions := by
    have hpos : Scopes.root < m.scopes.depth := hm.lexical.wellFormed.depth_pos
    show (m'.scopes.scopes.take m.scopes.depth)[Scopes.root]?.map (·.functions) = some F
    rw [List.getElem?_take, if_pos hpos]
    exact hm'.functions
  heap := hm'.heap

namespace Terminates

variable {x : Eval α}

/-- A step that only looks at the state. -/
theorem of_silent (h : ∀ m, (∃ a, x m = .ok a m) ∨ ∃ e, x m = .error (.error e) m) :
    Terminates F x := by
  intro m hm
  rcases h m with ⟨a, ha⟩ | ⟨e, he⟩
  · rw [ha, after_eq ha]
    exact ⟨nofun, hm, .refl _⟩
  · rw [he, after_eq_of_error he]
    exact ⟨nofun, hm, .refl _⟩

/-- A result is an end. -/
theorem pure (a : α) : Terminates F (pure a : Eval α) := of_silent fun _ => .inl ⟨a, rfl⟩

/-- A failure is an end as well. -/
theorem fail (e : EvalError) : Terminates F (Eval.fail e : Eval α) :=
  of_silent fun _ => .inr ⟨e, rfl⟩

/-- One step after the other. -/
theorem bind {f : α → Eval β} (hx : Terminates F x) (hf : ∀ a, Terminates F (f a)) :
    Terminates F (x >>= f) := by
  intro m hm
  obtain ⟨hfinished, hcalm, hkept⟩ := hx m hm
  cases hxm : x m with
  | ok a m₁ =>
    rw [after_eq hxm] at hcalm hkept
    obtain ⟨hfinished', hcalm', hkept'⟩ := hf a m₁ hcalm
    rw [bind_eq hxm, after_bind_ok hxm]
    exact ⟨hfinished', hcalm', hkept.trans hkept'⟩
  | error e m₁ =>
    rw [after_eq_of_error hxm] at hcalm hkept
    rw [after_bind_error hxm]
    refine ⟨fun m' h => ?_, hcalm, hkept⟩
    cases (bind_eq_error hxm f).symm.trans h
    exact hfinished m₁ hxm

/-- A function that is found is one of the root. -/
theorem lookupFunction {name : String} {n : Nat} {f : Routine Body → Eval β}
    (hf : ∀ r, F.find? (name, n) = some r → Terminates F (f r)) :
    Terminates F (Eval.lookupFunction name n >>= f) := by
  intro m hm
  have hfind := hm.findFunction? name n
  cases hr : F.find? (name, n) with
  | none =>
    have hfail : Eval.lookupFunction name n m = .error (.error (.undefinedFunction name n)) m := by
      rw [Eval.lookupFunction, hfind, hr]
      rfl
    rw [bind_eq_error hfail, after_bind_error hfail]
    exact ⟨nofun, hm, .refl _⟩
  | some r =>
    have hok : Eval.lookupFunction name n m = .ok r m := by
      rw [Eval.lookupFunction, hfind, hr]
    rw [bind_eq hok, after_bind_ok hok]
    exact hf r hr m hm

/-- A variable is found or not. -/
theorem lookupVariable (name : String) : Terminates F (Eval.lookupVariable name) := by
  refine of_silent fun m => ?_
  unfold Eval.lookupVariable
  cases m.scopes.findVariable? name with
  | none => exact .inr ⟨_, rfl⟩
  | some v => exact .inl ⟨v, rfl⟩

/-- A condition is a truth value or not. -/
theorem requireBoolean (o : Object) : Terminates F (Eval.requireBoolean o) := by
  unfold Eval.requireBoolean
  split
  · exact pure _
  · exact fail _

/-- An index is an integer or not. -/
theorem requireInteger (o : Object) : Terminates F (Eval.requireInteger o) := by
  unfold Eval.requireInteger
  split
  · exact pure _
  · exact fail _

/-- A type has a known name or not. -/
theorem typeNamed (name : String) : Terminates F (Eval.typeNamed name) := by
  unfold Eval.typeNamed
  split
  · exact pure _
  · exact fail _

/-- An operator is applied, or fails. -/
theorem apply (op : BinaryOp) (a b : Value) :
    Terminates F fun m => Eval.rule (Operator.apply m.heap op a b) m := by
  refine of_silent fun m => ?_
  cases Operator.apply m.heap op a b with
  | ok o => exact .inl ⟨o, rfl⟩
  | error e => exact .inr ⟨e, rfl⟩

/-- There is no list to be found. -/
theorem lookupList (name : String) : Terminates F (Eval.lookupList name) := by
  refine (lookupVariable name).bind fun v => ?_
  split
  · exact pure _
  · exact fail _

/-- An index is checked, and nothing changes. -/
theorem elementIndex (index : Int) (cell : CellId) :
    Terminates F (Eval.elementIndex index cell) := by
  refine of_silent fun m => ?_
  unfold Eval.elementIndex
  by_cases h : 0 ≤ index ∧ index < (m.heap.elements cell).length
  · exact .inl ⟨index.toNat, if_pos h⟩
  · exact .inr ⟨_, if_neg h⟩

/-- An element is read, or the lookup fails. -/
theorem readElement (name : String) (index : Int) : Terminates F (Eval.readElement name index) :=
  (lookupList name).bind fun cell => (elementIndex index cell).bind fun _ =>
    of_silent fun _ => .inl ⟨_, rfl⟩

/-- An element is written, which makes no list. -/
theorem writeElement (name : String) (index : Int) (value : Object) :
    Terminates F (Eval.writeElement name index value) := by
  refine (lookupList name).bind fun cell => (elementIndex index cell).bind fun i => ?_
  intro m hm
  refine ⟨nofun, ⟨hm.lexical, hm.functions, ?_⟩, .refl _⟩
  show m.heap.write cell i value = .empty
  rw [hm.heap]
  simp [Heap.write, Heap.empty]

/-- A variable gets another value. -/
theorem assignVariable (name : String) (value : Object) :
    Terminates F (Eval.assignVariable name value) := by
  have hassign : Terminates F (fun m => .ok ()
      { m with scopes := (m.scopes.assign? name value).getD m.scopes } : Eval Unit) := by
    intro m hm
    refine ⟨nofun, ?_⟩
    show Calm F { m with scopes := (m.scopes.assign? name value).getD m.scopes } ∧
      Scopes.Kept true m.scopes ((m.scopes.assign? name value).getD m.scopes)
    cases hs : m.scopes.assign? name value with
    | none => exact ⟨hm, .refl _⟩
    | some s =>
      have hfunctions := (Scopes.functions_assign hs Scopes.root).trans hm.functions
      exact ⟨⟨hm.lexical.assign hs, hfunctions, hm.heap⟩, (Scopes.Kept.assign hs).weaken⟩
  refine (lookupVariable name).bind fun v => ?_
  cases v.mutable with
  | false => exact (fail _).bind fun _ => hassign
  | true => exact hassign

/-- A line is printed, if there is room for it. -/
theorem printLine (o : Object) : Terminates F (Eval.printLine o) := by
  intro m hm
  unfold after Eval.printLine
  cases m.output.write (m.heap.text o.value ++ "\n") with
  | mk taken output =>
    cases taken with
    | false => exact ⟨nofun, ⟨hm.lexical, hm.functions, hm.heap⟩, .refl _⟩
    | true => exact ⟨nofun, ⟨hm.lexical, hm.functions, hm.heap⟩, .refl _⟩

/-- A variable is defined in the current scope. -/
theorem defineVariable (v : Variable Object) : Terminates F (Eval.defineVariable v) := by
  intro m hm
  unfold after Eval.defineVariable
  cases hdefine : m.scopes.defineVariable v with
  | error e => exact ⟨nofun, hm, .refl _⟩
  | ok s =>
    have hfunctions := (Scopes.functions_defineVariable hdefine Scopes.root).trans hm.functions
    exact ⟨nofun, ⟨hm.lexical.defineVariable hdefine, hfunctions, hm.heap⟩,
      .defineVariable hdefine⟩

/-- A declaration looks up its type, if it names one, and defines a variable. -/
theorem declare (name : String) (typeName : Option String) (mutable : Bool) (value : Object) :
    Terminates F (Eval.declare name typeName mutable value) := by
  cases typeName with
  | none => exact defineVariable _
  | some typeName => exact (typeNamed typeName).bind fun _ => defineVariable _

/-- Parameters are defined one after the other. -/
theorem bindParameters (names : List String) : ∀ (tys : List Ty) (values : List Object),
    Terminates F (Eval.bindParameters names tys values) := by
  induction names with
  | nil => exact fun _ _ => pure ()
  | cons name names ih =>
    intro tys values
    cases tys with
    | nil => exact pure ()
    | cons ty tys =>
      cases values with
      | nil => exact pure ()
      | cons value values => exact (defineVariable _).bind fun _ => ih tys values

/-- Both branches end. -/
theorem ite {b : Bool} {y : Eval α} (hx : Terminates F x) (hy : Terminates F y) :
    Terminates F (if b then x else y) := by
  cases b with
  | false => exact hy
  | true => exact hx

/-- A step for each element of a list. -/
theorem forM {γ : Type} {f : γ → Eval Unit} {l : List γ} (h : ∀ c ∈ l, Terminates F (f c)) :
    Terminates F (l.forM f) := by
  induction l with
  | nil => exact pure ()
  | cons c l ih =>
    obtain ⟨hc, hl⟩ := List.forall_mem_cons.1 h
    exact hc.bind fun _ => ih hl

/-- A step in a new scope below an open one; the scope is closed again. -/
theorem inScopeOf (hx : Terminates F x) {m : Machine} (hm : Calm F m) {parent : ScopeId}
    (hparent : parent < m.scopes.depth) :
    Finished (Eval.inScopeOf parent x m) ∧ Calm F (after (Eval.inScopeOf parent x) m) ∧
      Scopes.Kept true m.scopes (after (Eval.inScopeOf parent x) m).scopes := by
  obtain ⟨hfinished, hcalm, hkept⟩ := hx (m.enter parent) (hm.enter hparent)
  have hleave := hm.leave hcalm hkept
  have hkept' := hkept.leave.weaken
  unfold after Eval.inScopeOf
  cases hxm : x (m.enter parent) with
  | ok a m₁ =>
    rw [after_eq hxm] at hleave hkept'
    rw [Machine.enter] at hxm
    simp only [hxm]
    exact ⟨.ok _ _, hleave, hkept'⟩
  | error e m₁ =>
    rw [after_eq_of_error hxm] at hleave hkept'
    rw [hxm] at hfinished
    rw [Machine.enter] at hxm
    simp only [hxm]
    refine ⟨fun m' h => ?_, hleave, hkept'⟩
    cases h
    exact hfinished m₁ rfl

/-- A step in a new scope below the current one. -/
theorem inScope (hx : Terminates F x) : Terminates F (Eval.inScope x) := fun _ hm =>
  hx.inScopeOf hm hm.lexical.wellFormed.current

end Terminates

end Scriptlet
