import Scriptlet.Proofs.ScopeKept

/-!
# What one scope holds

A name is looked up through several scopes, but a step changes what one of them holds.  So
what a step does to the scopes is said place by place: for every scope and every name, which
variable or function is there after the step.

| step | a place afterwards |
| --- | --- |
| a variable or a function is defined | as before, if something was there |
| a variable gets a value | as before, but at the place where its name is found |
| a scope is opened | as before, if the scope was open |
| scopes are closed | as before, in the scopes that are left |
-/

namespace Scriptlet
namespace Scopes

variable {α β : Type} {s s' : Scopes α β}

/-- The function of a name and a number of arguments in one scope. -/
def functionAt (s : Scopes α β) (i : ScopeId) (key : String × Nat) : Option (Routine β) :=
  s.scopes[i]?.bind fun scope => scope.functions.find? key

/-! ### Where names are found -/

/-- A search looks into a scope, and then goes on at its parent. -/
theorem search_succ {γ : Type} (get : Scope α β → Option γ) (n : Nat) (id : ScopeId) :
    s.search get (n + 1) id =
      match s.scopes[id]?.bind get with
      | some v => some (id, v)
      | none => (s.parentAt id).join.bind (s.search get n) := by
  rw [search, parentAt]
  cases s.scopes[id]? with
  | none => rfl
  | some scope =>
    simp only [Option.bind_some, Option.map_some, Option.join_some]
    cases get scope with
    | some v => rfl
    | none => cases scope.parent <;> rfl

/-- A variable that is found is at the place where it was found. -/
theorem variableAt_of_resolve? {name : String} {i : ScopeId} {v : Variable α}
    (h : (s.resolve? fun scope => scope.vars.find? name) = some (i, v)) :
    s.variableAt i name = some v := by
  obtain ⟨scope, hscope, hfind⟩ := scope_of_search s.depth h
  rw [variableAt, hscope]
  exact hfind

/-- A function that is found is at some place. -/
theorem functionAt_of_findFunction? {name : String} {n : Nat} {r : Routine β}
    (h : s.findFunction? name n = some r) : ∃ i, s.functionAt i (name, n) = some r := by
  obtain ⟨⟨i, r'⟩, hresolve, rfl⟩ := Option.map_eq_some_iff.1 h
  obtain ⟨scope, hscope, hfind⟩ := scope_of_search s.depth hresolve
  exact ⟨i, by rw [functionAt, hscope]; exact hfind⟩

/-! ### Variables -/

section Modify

variable {id : ScopeId} {f : Scope α β → Scope α β}

/-- A change that leaves the variables of a scope alone leaves all of them alone. -/
theorem variableAt_modify (hf : ∀ scope, (f scope).vars = scope.vars) (i : ScopeId)
    (name : String) : (s.modify id f).variableAt i name = s.variableAt i name := by
  rw [variableAt, variableAt, scopes_modify]
  split
  · cases s.scopes[i]? with
    | none => rfl
    | some scope => simp only [Option.map_some, Option.bind_some, hf]
  · rfl

/-- A change that leaves the functions of a scope alone leaves all of them alone. -/
theorem functionAt_modify (hf : ∀ scope, (f scope).functions = scope.functions)
    (i : ScopeId) (key : String × Nat) :
    (s.modify id f).functionAt i key = s.functionAt i key := by
  rw [functionAt, functionAt, scopes_modify]
  split
  · cases s.scopes[i]? with
    | none => rfl
    | some scope => simp only [Option.map_some, Option.bind_some, hf]
  · rfl

end Modify

/-- Something is stored under a name, whether or not there was something before. -/
theorem variableAt_modify_setVariable (s : Scopes α β) (i : ScopeId) (name : String)
    (v : Variable α) (j : ScopeId) (name' : String) :
    (s.modify i (·.setVariable name v)).variableAt j name' =
      if i = j ∧ name = name' then s.scopes[j]?.map fun _ => v else s.variableAt j name' := by
  rw [variableAt, variableAt, scopes_modify]
  by_cases hj : i = j
  · cases s.scopes[j]? with
    | none => simp [hj]
    | some scope => simp [hj, Scope.setVariable, Table.find?_insert]
  · rw [if_neg hj, if_neg fun h => hj h.1]

/-- A variable that is there gets another value. -/
theorem variableAt_setVariable {name : String} {i : ScopeId} {v : Variable α}
    (h : s.variableAt i name = some v) (v' : Variable α) (j : ScopeId) (name' : String) :
    (s.modify i (·.setVariable name v')).variableAt j name' =
      if i = j ∧ name = name' then some v' else s.variableAt j name' := by
  obtain ⟨scope, hscope, -⟩ := Option.bind_eq_some_iff.1 h
  rw [variableAt_modify_setVariable]
  split
  · rename_i hplace
    rw [← hplace.1, hscope, Option.map_some]
  · rfl

/-- A variable that gets a value leaves functions alone. -/
theorem functionAt_setVariable (s : Scopes α β) (i : ScopeId) (name : String) (v : Variable α)
    (j : ScopeId) (key : String × Nat) :
    (s.modify i (·.setVariable name v)).functionAt j key = s.functionAt j key :=
  functionAt_modify (f := (·.setVariable name v)) (fun _ => rfl) j key

/-! ### Definitions -/

/-- A definition leaves the variables that were there. -/
theorem variableAt_of_defineVariable {v : Variable α} (h : s.defineVariable v = .ok s')
    {i : ScopeId} {name : String} {v' : Variable α} (hv : s.variableAt i name = some v') :
    s'.variableAt i name = some v' := by
  rw [Scopes.defineVariable] at h
  split at h
  · cases h
  rename_i hfree
  cases h
  rw [variableAt, scopes_modify]
  split
  · rename_i hi
    subst hi
    obtain ⟨scope, hscope, hfind⟩ := Option.bind_eq_some_iff.1 hv
    have hne : v.name ≠ name := by
      rintro rfl
      simp [hscope, Table.contains, hfind] at hfree
    rw [hscope, Option.map_some, Option.bind_some, Scope.addVariable, Table.find?_insert,
      if_neg hne]
    exact hfind
  · exact hv

/-- To define a variable leaves functions alone. -/
theorem functionAt_defineVariable {v : Variable α} (h : s.defineVariable v = .ok s')
    (i : ScopeId) (key : String × Nat) : s'.functionAt i key = s.functionAt i key := by
  rw [Scopes.defineVariable] at h
  split at h
  · cases h
  · cases h
    exact functionAt_modify (f := (·.addVariable v)) (fun _ => rfl) i key

/-- To define a function leaves variables alone. -/
theorem variableAt_defineFunction {r : Routine β} (h : s.defineFunction r = .ok s')
    (i : ScopeId) (name : String) : s'.variableAt i name = s.variableAt i name := by
  rw [Scopes.defineFunction] at h
  split at h
  · cases h
  · cases h
    exact variableAt_modify (f := (·.addFunction r)) (fun _ => rfl) i name

/-- A definition leaves the functions that were there. -/
theorem functionAt_kept_of_defineFunction {r : Routine β} (h : s.defineFunction r = .ok s')
    {i : ScopeId} {key : String × Nat} {r' : Routine β} (hr' : s.functionAt i key = some r') :
    s'.functionAt i key = some r' := by
  rw [Scopes.defineFunction] at h
  split at h
  · cases h
  rename_i hfree
  cases h
  rw [functionAt, scopes_modify]
  split
  · rename_i hi
    subst hi
    obtain ⟨scope, hscope, hfind⟩ := Option.bind_eq_some_iff.1 hr'
    have hne : (r.name, r.arity) ≠ key := by
      rintro rfl
      simp [hscope, Table.contains, hfind] at hfree
    rw [hscope, Option.map_some, Option.bind_some, Scope.addFunction, Table.find?_insert,
      if_neg hne]
    exact hfind
  · exact hr'

/-- A function is the one that was defined in the current scope, or was there before. -/
theorem functionAt_of_defineFunction {r : Routine β} (h : s.defineFunction r = .ok s')
    {i : ScopeId} {key : String × Nat} {r' : Routine β} (hr' : s'.functionAt i key = some r') :
    i = s.current ∧ r' = r ∨ s.functionAt i key = some r' := by
  rw [Scopes.defineFunction] at h
  split at h
  · cases h
  cases h
  rw [functionAt, scopes_modify] at hr'
  split at hr'
  · rename_i hcurrent
    obtain ⟨scope, hscope, hfind⟩ := Option.bind_eq_some_iff.1 hr'
    obtain ⟨before, hbefore, rfl⟩ := Option.map_eq_some_iff.1 hscope
    rw [Scope.addFunction, Table.find?_insert] at hfind
    split at hfind
    · exact .inl ⟨hcurrent.symm, (Option.some.inj hfind).symm⟩
    · exact .inr (by rw [functionAt, hbefore]; exact hfind)
  · exact .inr hr'

/-- An assignment leaves functions alone. -/
theorem functionAt_assign {name : String} {value : α} (h : s.assign? name value = some s')
    (i : ScopeId) (key : String × Nat) : s'.functionAt i key = s.functionAt i key := by
  rw [Scopes.assign?] at h
  split at h
  · cases h
  · cases h
    exact functionAt_setVariable ..

/-! ### Opening and closing -/

/-- A new scope that does not hold what is looked for. -/
theorem bind_scopes_push {γ : Type} (s : Scopes α β) {scope : Scope α β} (i : ScopeId)
    {get : Scope α β → Option γ} (hget : get scope = none) :
    (s.scopes ++ [scope])[i]?.bind get = s.scopes[i]?.bind get := by
  rcases Nat.lt_trichotomy i s.scopes.length with hlt | rfl | hgt
  · rw [List.getElem?_append_left hlt]
  · rw [List.getElem?_concat_length, List.getElem?_eq_none (Nat.le_refl _)]
    exact hget
  · rw [List.getElem?_eq_none (by rw [List.length_append]; exact hgt),
      List.getElem?_eq_none (Nat.le_of_lt hgt)]

/-- A new scope holds no variable. -/
theorem variableAt_enter (s : Scopes α β) (parent i : ScopeId) (name : String) :
    (s.enter parent).variableAt i name = s.variableAt i name := bind_scopes_push s i rfl

/-- A new scope holds no function. -/
theorem functionAt_enter (s : Scopes α β) (parent i : ScopeId) (key : String × Nat) :
    (s.enter parent).functionAt i key = s.functionAt i key := bind_scopes_push s i rfl

/-- What is there after scopes are closed was there before. -/
theorem functionAt_of_leave {frame : Frame} {i : ScopeId} {key : String × Nat} {r : Routine β}
    (h : (s.leave frame).functionAt i key = some r) : s.functionAt i key = some r := by
  rw [functionAt, Kept.scopes_leave] at h
  split at h
  · exact h
  · cases h

/-- Variables of scopes that are left open stay, and the others are gone. -/
theorem variableAt_leave (s : Scopes α β) (frame : Frame) (i : ScopeId) (name : String) :
    (s.leave frame).variableAt i name =
      if i < frame.depth then s.variableAt i name else none := by
  rw [variableAt, Kept.scopes_leave]
  split <;> rfl

end Scopes

/-- Before a run there is only the function that prints. -/
theorem Machine.functionAt_start {limit : Option Nat} {i : ScopeId} {key : String × Nat}
    {r : Routine Body} (h : (Machine.start limit).scopes.functionAt i key = some r) :
    r = .print .print := by
  obtain ⟨scope, hscope, hfind⟩ := Option.bind_eq_some_iff.1 h
  obtain rfl := List.mem_singleton.1 (List.mem_of_getElem? hscope)
  change (Table.insert .empty ("print", 1) (Routine.print Body.print)).find? key = some r at hfind
  rw [Table.find?_insert] at hfind
  split at hfind
  · exact (Option.some.inj hfind).symm
  · cases hfind

end Scriptlet
