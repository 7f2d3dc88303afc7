import Mathlib.Tactic.Common
import Scriptlet.Proofs.Typing

/-!
# Arenas and environments

Scopes live in an arena and find their parents by position, while the typing rules
speak of a list of frames.  `Chain` reads the list off the arena: it is what is met
on the way from a scope to the root.  Looking a name up in the arena is looking it up
in that list.

Two arenas are `Alike` if they have the same positions, parents and names, and what
they hold under the same name is related.  Every operation on arenas keeps arenas
alike, so what is known about one of them is known about the other.
-/

namespace Scriptlet

namespace Scopes

variable {α β : Type}

/-- The arena with other variables in the current scope. -/
def withVars (s : Scopes α β) (vars : Table String (Variable α)) : Scopes α β :=
  s.modify s.current ({ · with vars := vars })

/-- Other variables in the current scope do not change which scope is current. -/
@[simp] theorem withVars_current (s : Scopes α β) (vars : Table String (Variable α)) :
    (s.withVars vars).current = s.current := rfl

/-- Of two lots of variables, the second counts. -/
@[simp] theorem withVars_withVars (s : Scopes α β) (vars vars' : Table String (Variable α)) :
    (s.withVars vars).withVars vars' = s.withVars vars' := by
  simp only [withVars, modify, List.modify_modify_eq]
  rfl

/-- Other scopes keep their variables. -/
theorem scopes_withVars_other (s : Scopes α β) (vars : Table String (Variable α)) {i : ScopeId}
    (h : i ≠ s.current) : (s.withVars vars).scopes[i]? = s.scopes[i]? := by
  simp [withVars, modify, Ne.symm h]

/-- The current scope gets the variables, and keeps the rest. -/
theorem scopes_withVars_current (s : Scopes α β) (vars : Table String (Variable α)) :
    (s.withVars vars).scopes[s.current]? =
      s.scopes[s.current]?.map ({ · with vars := vars }) := by
  simp [withVars, modify]

/-- The variables that the current scope has already change nothing. -/
theorem withVars_self {s : Scopes α β} {scope : Scope α β}
    (h : s.scopes[s.current]? = some scope) : s.withVars scope.vars = s := by
  obtain ⟨scopes, current⟩ := s
  simp only [withVars, modify, mk.injEq, and_true]
  refine List.ext_getElem? fun i => ?_
  rw [List.getElem?_modify]
  by_cases hi : current = i
  · subst hi
    rw [h]
    simp
  · simp [hi]

/-- Leaving a scope forgets what was declared in it. -/
theorem leave_withVars_enter (s : Scopes α β) (parent : ScopeId)
    (vars : Table String (Variable α)) : ((s.enter parent).withVars vars).leave s.frame = s := by
  obtain ⟨scopes, current⟩ := s
  simp only [withVars, modify, enter, leave, frame, depth, mk.injEq, and_true]
  refine List.ext_getElem? fun i => ?_
  rw [List.getElem?_take, List.getElem?_modify]
  by_cases hi : i < scopes.length
  · have hne : scopes.length ≠ i := by omega
    simp [hi, hne, List.getElem?_append_left]
  · simp [hi]

/-- What a search finds is in the scope that it names. -/
theorem scope_of_search {γ : Type} {s : Scopes α β} {get : Scope α β → Option γ} {i : ScopeId}
    {a : γ} (n : Nat) :
    ∀ {id : ScopeId}, s.search get n id = some (i, a) →
      ∃ scope, s.scopes[i]? = some scope ∧ get scope = some a := by
  induction n with
  | zero =>
    intro id h
    cases h
  | succ n ih =>
    intro id h
    rw [search] at h
    split at h
    · cases h
    · split at h
      · cases h
        exact ⟨_, ‹_›, ‹_›⟩
      · split at h
        · cases h
        · exact ih h

end Scopes

/-! ### Chains -/

/-- The frames from scope `id` to the root, and the functions, which are all in the
root. -/
inductive Chain (scopes : List (Scope Unit Unit)) (Φ : Signatures) : Nat → Env → Prop where
  | root {scope : Scope Unit Unit} :
    scopes[0]? = some scope → scope.parent = none → scope.functions = Φ →
      Chain scopes Φ 0 [scope.vars]
  | inner {id parent : Nat} {scope : Scope Unit Unit} {Γ : Env} :
    scopes[id]? = some scope → scope.parent = some parent → parent < id →
      scope.functions = .empty → Chain scopes Φ parent Γ → Chain scopes Φ id (scope.vars :: Γ)

namespace Chain

variable {scopes scopes' : List (Scope Unit Unit)} {Φ : Signatures} {id : Nat} {Γ outer : Env}
  {frame : Locals}

/-- A scope with a way to the root is open. -/
theorem lt_length (h : Chain scopes Φ id Γ) : id < scopes.length := by
  cases h with
  | root h => exact (List.getElem?_eq_some_iff.1 h).1
  | inner h => exact (List.getElem?_eq_some_iff.1 h).1

/-- A chain depends on the scopes that it meets only. -/
theorem congr (h : Chain scopes Φ id Γ) (hs : ∀ i ≤ id, scopes'[i]? = scopes[i]?) :
    Chain scopes' Φ id Γ := by
  induction h with
  | root h hp hf => exact .root ((hs 0 (Nat.le_refl _)).trans h) hp hf
  | inner h hp hlt hf _ ih =>
    refine .inner ((hs _ (Nat.le_refl _)).trans h) hp hlt hf (ih fun i hi => hs i ?_)
    exact Nat.le_trans hi (Nat.le_of_lt hlt)

/-- A new scope adds an empty frame. -/
theorem enter {s : Scopes Unit Unit} (h : Chain s.scopes Φ id Γ) :
    Chain (s.enter id).scopes Φ s.depth (.empty :: Γ) := by
  have hlt := h.lt_length
  have hscope : (s.enter id).scopes[s.depth]? = some (.empty (some id)) := by
    simp [Scopes.enter, Scopes.depth]
  refine .inner hscope rfl hlt rfl (h.congr fun i hi => ?_)
  rw [Scopes.enter, List.getElem?_append_left (Nat.lt_of_le_of_lt hi hlt)]

/-- Other variables in the current scope are another first frame. -/
theorem withVars {s : Scopes Unit Unit} (h : Chain s.scopes Φ s.current (frame :: outer))
    (vars : Locals) : Chain (s.withVars vars).scopes Φ s.current (vars :: outer) := by
  have hcurrent := s.scopes_withVars_current vars
  generalize hid : s.current = id at h hcurrent
  cases h with
  | root h hp hf =>
    rw [h, Option.map_some] at hcurrent
    exact .root hcurrent hp hf
  | inner h hp hlt hf hrest =>
    rw [h, Option.map_some] at hcurrent
    refine .inner hcurrent hp hlt hf (hrest.congr fun i hi => ?_)
    have hne : i ≠ id := by omega
    exact s.scopes_withVars_other vars (hid ▸ hne)

/-- The first frame is what the current scope holds. -/
theorem current_scope {s : Scopes Unit Unit} (h : Chain s.scopes Φ s.current (frame :: outer)) :
    ∃ scope, s.scopes[s.current]? = some scope ∧ scope.vars = frame := by
  generalize s.current = id at h ⊢
  cases h with
  | root h => exact ⟨_, h, rfl⟩
  | inner h => exact ⟨_, h, rfl⟩

/-- The last frame of a chain is that of the root. -/
theorem to_root (h : Chain scopes Φ id Γ) :
    ∃ globals, Γ.getLast? = some globals ∧ Chain scopes Φ 0 [globals] := by
  induction h with
  | root h hp hf => exact ⟨_, rfl, .root h hp hf⟩
  | inner _ _ _ _ hrest ih =>
    obtain ⟨globals, hlast, hroot⟩ := ih
    refine ⟨globals, ?_, hroot⟩
    rw [List.getLast?_cons, hlast]
    rfl

/-- **Searching the arena is searching the frames.** -/
theorem search_vars {s : Scopes Unit Unit} (h : Chain s.scopes Φ id Γ) (name : String) {n : Nat}
    (hn : id < n) :
    (s.search (fun scope => scope.vars.find? name) n id).map Prod.snd = Γ.lookup name := by
  induction h generalizing n with
  | root h hp _ =>
    obtain ⟨n, rfl⟩ : ∃ k, n = k + 1 := ⟨n - 1, by omega⟩
    simp only [Scopes.search, h, Env.lookup, hp]
    cases Table.find? _ name <;> rfl
  | inner h hp hlt _ _ ih =>
    obtain ⟨n, rfl⟩ : ∃ k, n = k + 1 := ⟨n - 1, by omega⟩
    simp only [Scopes.search, h, Env.lookup, hp]
    cases Table.find? _ name with
    | none => exact ih (by omega)
    | some v => rfl

/-- Functions are in the root, whichever scope the search starts from. -/
theorem search_functions {s : Scopes Unit Unit} (h : Chain s.scopes Φ id Γ) (key : String × Nat)
    {n : Nat} (hn : id < n) :
    (s.search (fun scope => scope.functions.find? key) n id).map Prod.snd = Φ.find? key := by
  induction h generalizing n with
  | root h hp hf =>
    obtain ⟨n, rfl⟩ : ∃ k, n = k + 1 := ⟨n - 1, by omega⟩
    simp only [Scopes.search, h, hf, hp]
    cases Φ.find? key <;> rfl
  | inner h hp hlt hf _ ih =>
    obtain ⟨n, rfl⟩ : ∃ k, n = k + 1 := ⟨n - 1, by omega⟩
    simp only [Scopes.search, h, hf, hp, Table.find?_empty]
    exact ih (by omega)

/-- A variable is looked up in the list of frames. -/
theorem findVariable? {s : Scopes Unit Unit} (h : Chain s.scopes Φ s.current Γ) (name : String) :
    s.findVariable? name = Γ.lookup name := h.search_vars name h.lt_length

/-- A function is looked up among the functions of the root. -/
theorem findFunction? {s : Scopes Unit Unit} (h : Chain s.scopes Φ s.current Γ) (name : String)
    (arity : Nat) : s.findFunction? name arity = Φ.find? (name, arity) :=
  h.search_functions (name, arity) h.lt_length

/-- **Declaring a variable extends the innermost frame**, unless it has the name. -/
theorem defineVariable {s : Scopes Unit Unit} (h : Chain s.scopes Φ s.current (frame :: outer))
    (v : Variable Unit) :
    s.defineVariable v =
      match frame.find? v.name with
      | some _ => .error (.duplicateVariable v.name)
      | none => .ok (s.withVars (frame.insert v.name v)) := by
  obtain ⟨scope, hscope, rfl⟩ := h.current_scope
  have hmodify : s.modify s.current (·.addVariable v) =
      s.withVars (scope.vars.insert v.name v) := by
    obtain ⟨scopes, current⟩ := s
    simp only [Scopes.modify, Scopes.withVars, Scopes.mk.injEq, and_true]
    refine List.ext_getElem? fun i => ?_
    rw [List.getElem?_modify, List.getElem?_modify]
    by_cases hi : current = i
    · subst hi
      rw [hscope]
      rfl
    · simp [hi]
  rw [Scopes.defineVariable, hscope, hmodify, Option.any_some, Table.contains]
  cases scope.vars.find? v.name <;> rfl

/-- The root has no parent, the globals and all functions. -/
theorem root_scope {s : Scopes Unit Unit} {globals : Locals} (h : Chain s.scopes Φ 0 [globals]) :
    s.scopes[0]? = some ⟨none, globals, Φ⟩ := by
  generalize hΓ : [globals] = Γ at h
  cases h with
  | @root scope h hp hf =>
    obtain ⟨parent, vars, functions⟩ := scope
    cases hΓ
    cases hp
    cases hf
    exact h
  | inner _ _ hlt => exact absurd hlt (Nat.not_lt_zero _)

/-- **Defining a function in the root extends the functions**, unless there is one of
that name and number of arguments. -/
theorem defineFunction {s : Scopes Unit Unit} {globals : Locals}
    (h : Chain s.scopes Φ 0 [globals]) (hroot : s.current = 0) (r : Routine Unit) :
    s.defineFunction r =
      match Φ.find? (r.name, r.arity) with
      | some _ => .error (.duplicateFunction r.name r.arity)
      | none => .ok (s.modify 0 (·.addFunction r)) := by
  rw [Scopes.defineFunction, hroot, h.root_scope, Option.any_some, Table.contains]
  cases Φ.find? (r.name, r.arity) <;> rfl

/-- A function is added to the root, and the globals stay. -/
theorem addFunction {s : Scopes Unit Unit} {globals : Locals} (h : Chain s.scopes Φ 0 [globals])
    (r : Routine Unit) :
    Chain (s.modify 0 (·.addFunction r)).scopes (Φ.insert (r.name, r.arity) r) 0 [globals] := by
  have hscope : (s.modify 0 (·.addFunction r)).scopes[0]? =
      some ⟨none, globals, Φ.insert (r.name, r.arity) r⟩ := by
    simp [Scopes.modify, h.root_scope, Scope.addFunction]
  exact .root hscope rfl rfl

end Chain

/-! ### Arenas that are alike -/

namespace Table

variable {κ α α' : Type} [DecidableEq κ]

/-- Both tables have the same keys, and what they hold under a key is related. -/
def Alike (R : α → α' → Prop) (t : Table κ α) (t' : Table κ α') : Prop :=
  ∀ k, Option.Rel R (t.find? k) (t'.find? k)

/-- Empty tables are alike. -/
theorem Alike.empty (R : α → α' → Prop) : Alike R (empty : Table κ α) (empty : Table κ α') :=
  fun _ => .none

/-- Related entries are put under the same key. -/
theorem Alike.insert {R : α → α' → Prop} {t : Table κ α} {t' : Table κ α'} (h : Alike R t t')
    (k : κ) {a : α} {a' : α'} (ha : R a a') : Alike R (t.insert k a) (t'.insert k a') := by
  intro k'
  rw [find?_insert, find?_insert]
  by_cases hk : k = k'
  · rw [if_pos hk, if_pos hk]
    exact .some ha
  · rw [if_neg hk, if_neg hk]
    exact h k'

/-- Tables are alike for a weaker relation. -/
theorem Alike.mono {R R' : α → α' → Prop} {t : Table κ α} {t' : Table κ α'} (h : Alike R t t')
    (hR : ∀ a a', R a a' → R' a a') : Alike R' t t' := by
  intro k
  have hk := h k
  generalize t.find? k = x at hk ⊢
  generalize t'.find? k = x' at hk ⊢
  cases hk with
  | none => exact .none
  | some ha => exact .some (hR _ _ ha)

/-- What is stored anew in one table must be related to what the other one has. -/
theorem Alike.insert_right {R : α → α' → Prop} {t : Table κ α} {t' : Table κ α'}
    (h : Alike R t t') {k : κ} {a : α} {a' : α'} (hk : t.find? k = some a) (ha : R a a') :
    Alike R t (t'.insert k a') := by
  intro k'
  rw [find?_insert]
  by_cases hk' : k = k'
  · subst hk'
    rw [if_pos rfl, hk]
    exact .some ha
  · rw [if_neg hk']
    exact h k'

end Table

section Alike

variable {α β α' β' γ γ' : Type} {RV : Variable α → Variable α' → Prop}
  {RF : Table (String × Nat) (Routine β) → Table (String × Nat) (Routine β') → Prop}

/-- Two scopes with the same parent and related names; `RF` relates their functions. -/
structure Scope.Alike (RV : Variable α → Variable α' → Prop)
    (RF : Table (String × Nat) (Routine β) → Table (String × Nat) (Routine β') → Prop)
    (s : Scope α β) (s' : Scope α' β') : Prop where
  parent : s.parent = s'.parent
  vars : Table.Alike RV s.vars s'.vars
  functions : RF s.functions s'.functions

/-- Two arenas with the same positions, whose scopes are alike. -/
structure Scopes.Alike (RV : Variable α → Variable α' → Prop)
    (RF : Table (String × Nat) (Routine β) → Table (String × Nat) (Routine β') → Prop)
    (s : Scopes α β) (s' : Scopes α' β') : Prop where
  current : s.current = s'.current
  scopes : ∀ i : Nat, Option.Rel (Scope.Alike RV RF) s.scopes[i]? s'.scopes[i]?

namespace Scopes.Alike

variable {s : Scopes α β} {s' : Scopes α' β'}

/-- Arenas are alike for weaker relations. -/
theorem mono {RV' : Variable α → Variable α' → Prop}
    {RF' : Table (String × Nat) (Routine β) → Table (String × Nat) (Routine β') → Prop}
    (h : Scopes.Alike RV RF s s') (hRV : ∀ v v', RV v v' → RV' v v')
    (hRF : ∀ t t', RF t t' → RF' t t') : Scopes.Alike RV' RF' s s' where
  current := h.current
  scopes i := by
    have hi := h.scopes i
    generalize s.scopes[i]? = a at hi ⊢
    generalize s'.scopes[i]? = a' at hi ⊢
    cases hi with
    | none => exact .none
    | some ha => exact .some ⟨ha.parent, ha.vars.mono hRV, hRF _ _ ha.functions⟩

/-- As many scopes are open in both. -/
theorem depth (h : Scopes.Alike RV RF s s') : s.depth = s'.depth := by
  have hnone : ∀ i : Nat, s.scopes[i]? = none ↔ s'.scopes[i]? = none := by
    intro i
    have hi := h.scopes i
    generalize s.scopes[i]? = a at hi ⊢
    generalize s'.scopes[i]? = b at hi ⊢
    cases hi <;> simp
  refine Nat.le_antisymm ?_ ?_
  · exact List.getElem?_eq_none_iff.1 ((hnone _).2 (List.getElem?_eq_none (Nat.le_refl _)))
  · exact List.getElem?_eq_none_iff.1 ((hnone _).1 (List.getElem?_eq_none (Nat.le_refl _)))

/-- A scope is opened in both below the same one. -/
theorem enter (h : Scopes.Alike RV RF s s') (hempty : RF .empty .empty) (parent : ScopeId) :
    Scopes.Alike RV RF (s.enter parent) (s'.enter parent) where
  current := h.depth
  scopes i := by
    have hlen : s.scopes.length = s'.scopes.length := h.depth
    simp only [Scopes.enter, List.getElem?_append, hlen]
    split
    · exact h.scopes i
    · cases i - s'.scopes.length with
      | zero => exact .some ⟨rfl, Table.Alike.empty RV, hempty⟩
      | succ n => exact .none

/-- Scopes are closed in both down to the same frame. -/
theorem leave (h : Scopes.Alike RV RF s s') (frame : Frame) :
    Scopes.Alike RV RF (s.leave frame) (s'.leave frame) where
  current := rfl
  scopes i := by
    simp only [Scopes.leave, List.getElem?_take]
    split
    · exact h.scopes i
    · exact .none

/-- The same scope is changed in both, and stays alike. -/
theorem modify (h : Scopes.Alike RV RF s s') (id : ScopeId) {f : Scope α β → Scope α β}
    {f' : Scope α' β' → Scope α' β'}
    (hf : ∀ a a', s.scopes[id]? = some a → Scope.Alike RV RF a a' →
      Scope.Alike RV RF (f a) (f' a')) :
    Scopes.Alike RV RF (s.modify id f) (s'.modify id f') where
  current := h.current
  scopes i := by
    have hi := h.scopes i
    simp only [Scopes.modify, List.getElem?_modify]
    by_cases hid : id = i
    · subst hid
      simp only [if_true]
      generalize hs : s.scopes[id]? = a at hi
      generalize s'.scopes[id]? = a' at hi
      cases hi with
      | none => exact .none
      | some ha => exact .some (hf _ _ hs ha)
    · simpa [hid] using hi

/-- A change in the second arena alone that keeps the scope alike. -/
theorem modify_right (h : Scopes.Alike RV RF s s') (i : ScopeId)
    {f : Scope α' β' → Scope α' β'}
    (hf : ∀ a a', s.scopes[i]? = some a → Scope.Alike RV RF a a' → Scope.Alike RV RF a (f a')) :
    Scopes.Alike RV RF s (s'.modify i f) := by
  have hid : s.modify i id = s := by rw [Scopes.modify, List.modify_id]
  rw [← hid]
  exact h.modify i hf

/-- A change in the first arena alone that keeps the scope alike. -/
theorem modify_left (h : Scopes.Alike RV RF s s') (i : ScopeId) {f : Scope α β → Scope α β}
    (hf : ∀ a a', Scope.Alike RV RF a a' → Scope.Alike RV RF (f a) a') :
    Scopes.Alike RV RF (s.modify i f) s' := by
  have hid : s'.modify i id = s' := by rw [Scopes.modify, List.modify_id]
  rw [← hid]
  exact h.modify i fun a a' _ ha => hf a a' ha

/-- Searching alike arenas ends at the same position. -/
theorem search (h : Scopes.Alike RV RF s s') {get : Scope α β → Option γ}
    {get' : Scope α' β' → Option γ'} {R : γ → γ' → Prop}
    (hget : ∀ a a', Scope.Alike RV RF a a' → Option.Rel R (get a) (get' a')) (n : Nat) :
    ∀ id : ScopeId, Option.Rel (fun a a' => a.1 = a'.1 ∧ R a.2 a'.2) (s.search get n id)
      (s'.search get' n id) := by
  induction n with
  | zero =>
    intro id
    exact .none
  | succ n ih =>
    intro id
    have hi := h.scopes id
    simp only [Scopes.search]
    generalize s.scopes[id]? = a at hi ⊢
    generalize s'.scopes[id]? = a' at hi ⊢
    cases hi with
    | none => exact .none
    | @some a a' ha =>
      have hg := hget a a' ha
      simp only [ha.parent]
      generalize get a = g at hg ⊢
      generalize get' a' = g' at hg ⊢
      cases hg with
      | some hR => exact .some ⟨rfl, hR⟩
      | none =>
        cases a'.parent with
        | none => exact .none
        | some parent => exact ih parent

/-- A search ends at the same scope in both, with related results. -/
theorem resolve? (h : Scopes.Alike RV RF s s') {get : Scope α β → Option γ}
    {get' : Scope α' β' → Option γ'} {R : γ → γ' → Prop}
    (hget : ∀ a a', Scope.Alike RV RF a a' → Option.Rel R (get a) (get' a')) :
    Option.Rel (fun a a' => a.1 = a'.1 ∧ R a.2 a'.2) (s.resolve? get) (s'.resolve? get') := by
  rw [Scopes.resolve?, Scopes.resolve?, h.depth, h.current]
  exact h.search hget s'.depth s'.current

/-- A variable is found in both or in none, and the two are related. -/
theorem findVariable? (h : Scopes.Alike RV RF s s') (name : String) :
    Option.Rel RV (s.findVariable? name) (s'.findVariable? name) := by
  have hfind := h.resolve? fun a a' ha => ha.vars name
  rw [Scopes.findVariable?, Scopes.findVariable?]
  generalize s.resolve? _ = a at hfind ⊢
  generalize s'.resolve? _ = a' at hfind ⊢
  cases hfind with
  | none => exact .none
  | some hR => exact .some hR.2

/-- A function is found in both or in none, and the two are related. -/
theorem findFunction? {RB : Routine β → Routine β' → Prop}
    (h : Scopes.Alike RV (Table.Alike RB) s s') (name : String) (arity : Nat) :
    Option.Rel RB (s.findFunction? name arity) (s'.findFunction? name arity) := by
  have hfind := h.resolve? fun a a' ha => ha.functions (name, arity)
  rw [Scopes.findFunction?, Scopes.findFunction?]
  generalize s.resolve? _ = a at hfind ⊢
  generalize s'.resolve? _ = a' at hfind ⊢
  cases hfind with
  | none => exact .none
  | some hR => exact .some hR.2

/-- A variable is declared in both arenas. -/
theorem defineVariable (h : Scopes.Alike RV RF s s') {v : Variable α} {v' : Variable α'}
    (hname : v.name = v'.name) (hv : RV v v') {t : Scopes α β} (ht : s.defineVariable v = .ok t) :
    ∃ t', s'.defineVariable v' = .ok t' ∧ Scopes.Alike RV RF t t' := by
  have hi := h.scopes s.current
  have hmodify : Scopes.Alike RV RF (s.modify s.current (·.addVariable v))
      (s'.modify s.current (·.addVariable v')) := by
    refine h.modify s.current fun a a' _ ha => ⟨ha.parent, ?_, ha.functions⟩
    rw [Scope.addVariable, Scope.addVariable, hname]
    exact ha.vars.insert v'.name hv
  rw [Scopes.defineVariable] at ht
  split at ht
  · cases ht
  · rename_i hfree
    cases ht
    refine ⟨s'.modify s'.current (·.addVariable v'), ?_, h.current ▸ hmodify⟩
    rw [Scopes.defineVariable, if_neg]
    rw [← h.current]
    generalize s.scopes[s.current]? = a at hi hfree
    generalize s'.scopes[s.current]? = a' at hi
    cases hi with
    | none => simp
    | @some a a' ha =>
      have hvars := ha.vars v.name
      simp only [Option.any_some, Table.contains, ← hname] at hfree ⊢
      generalize a.vars.find? v.name = x at hvars hfree
      generalize a'.vars.find? v.name = x' at hvars
      cases hvars with
      | none => simp
      | some => simp at hfree

/-- A function is defined in both arenas. -/
theorem defineFunction {RB : Routine β → Routine β' → Prop}
    (h : Scopes.Alike RV (Table.Alike RB) s s') {r : Routine β} {r' : Routine β'}
    (hname : r.name = r'.name) (harity : r.arity = r'.arity) (hr : RB r r') {t : Scopes α β}
    (ht : s.defineFunction r = .ok t) :
    ∃ t', s'.defineFunction r' = .ok t' ∧ Scopes.Alike RV (Table.Alike RB) t t' := by
  have hi := h.scopes s.current
  have hmodify : Scopes.Alike RV (Table.Alike RB) (s.modify s.current (·.addFunction r))
      (s'.modify s.current (·.addFunction r')) := by
    refine h.modify s.current fun a a' _ ha => ⟨ha.parent, ha.vars, ?_⟩
    rw [Scope.addFunction, Scope.addFunction, hname, harity]
    exact ha.functions.insert (r'.name, r'.arity) hr
  rw [Scopes.defineFunction] at ht
  split at ht
  · cases ht
  · rename_i hfree
    cases ht
    refine ⟨s'.modify s'.current (·.addFunction r'), ?_, h.current ▸ hmodify⟩
    rw [Scopes.defineFunction, if_neg]
    rw [← h.current]
    generalize s.scopes[s.current]? = a at hi hfree
    generalize s'.scopes[s.current]? = a' at hi
    cases hi with
    | none => simp
    | @some a a' ha =>
      have hfunctions := ha.functions (r.name, r.arity)
      simp only [Option.any_some, Table.contains, ← hname, ← harity] at hfree ⊢
      generalize a.functions.find? (r.name, r.arity) = x at hfunctions hfree
      generalize a'.functions.find? (r.name, r.arity) = x' at hfunctions
      cases hfunctions with
      | none => simp
      | some => simp at hfree

/-- Replacing the value of a variable of one arena keeps the arenas alike if the new
value is related too. -/
theorem assign (h : Scopes.Alike RV RF s s') {name : String} {v : Variable α}
    (hv : s.findVariable? name = some v) :
    ∃ v', s'.findVariable? name = some v' ∧ RV v v' ∧
      ∀ value, RV v { v' with value := value } →
        ∃ t', s'.assign? name value = some t' ∧ Scopes.Alike RV RF s t' := by
  have hfind := h.resolve? fun a a' ha => ha.vars name
  rw [Scopes.findVariable?] at hv ⊢
  unfold Scopes.assign?
  generalize hr : s.resolve? _ = x at hfind hv
  generalize s'.resolve? _ = x' at hfind
  cases hfind with
  | none => cases hv
  | @some a a' ha =>
    obtain ⟨i, a⟩ := a
    obtain ⟨i', a'⟩ := a'
    obtain ⟨rfl, hR⟩ := ha
    cases hv
    refine ⟨a', rfl, hR, fun value hvalue => ⟨_, rfl, ?_⟩⟩
    refine h.modify_right i fun b b' hb halike => ⟨halike.parent, ?_, halike.functions⟩
    obtain ⟨scope, hscope, hget⟩ := Scopes.scope_of_search _ hr
    cases hscope.symm.trans hb
    exact halike.vars.insert_right hget hvalue

end Scopes.Alike
end Alike
end Scriptlet
