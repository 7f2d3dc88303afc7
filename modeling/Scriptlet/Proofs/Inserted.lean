import Scriptlet.Proofs.Lexical
import Scriptlet.Proofs.Limit
import Scriptlet.Proofs.Places

/-!
# A scope put in

Two states are compared that differ by one scope `X`, which is put in at position `d`:

| first state | second state | |
| --- | --- | --- |
| scope `i < d` | scope `i` | the same |
| | scope `d` | `X`, which never changes |
| scope `i ≥ d` | scope `i + 1` | the same but for names that `X` defines |

What is looked up through the parent of `X` in the first state may be looked up through `X` in
the second one.  Functions are declared outside, in scopes before `d`.  Then every part of a
program that does not use the names of `X` does the same in both states: the names it uses are
found at the same places, and the scopes it opens come after the others.
-/

namespace Scriptlet

/-! ### Names of variables -/

/-- A scope defines no variable of these names. -/
def Scope.Misses {α β : Type} (X : Scope α β) (names : List String) : Prop :=
  ∀ name ∈ names, X.vars.find? name = none

/-- An empty scope defines none of the names. -/
theorem Scope.misses_empty {α β : Type} {parent : Option ScopeId} (names : List String) :
    (Scope.empty parent : Scope α β).Misses names := fun _ _ => rfl

namespace Scope.Misses

variable {α β : Type} {X : Scope α β} {names names' : List String}

/-- Of the names of two parts, those of the first. -/
theorem left (h : X.Misses (names ++ names')) : X.Misses names :=
  fun n hn => h n (List.mem_append_left _ hn)

/-- Of the names of two parts, those of the second. -/
theorem right (h : X.Misses (names ++ names')) : X.Misses names' :=
  fun n hn => h n (List.mem_append_right _ hn)

end Scope.Misses

/-! ### Positions -/

/-- Where scope `i` is after a scope was put in at position `d`. -/
def ScopeId.moved (d i : Nat) : Nat := if i < d then i else i + 1

namespace ScopeId

variable {d i j : Nat}

/-- Scopes before the new one stay where they are. -/
theorem moved_of_lt (h : i < d) : moved d i = i := if_pos h

/-- Scopes from the position of the new one on move up by one. -/
theorem moved_of_le (h : d ≤ i) : moved d i = i + 1 := if_neg (Nat.not_lt.2 h)

/-- No scope is moved to the position of the new one. -/
theorem moved_ne (d i : Nat) : moved d i ≠ d := by
  unfold moved
  split <;> omega

/-- Before the new scope a position holds what it held. -/
theorem moved_eq_iff (h : j < d) : moved d i = j ↔ i = j := by
  unfold moved
  split <;> omega

/-- Behind the new scope a position holds what the one before it held. -/
theorem moved_eq_succ_iff (h : d ≤ j) : moved d i = j + 1 ↔ i = j := by
  unfold moved
  split <;> omega

/-- No scope moves by more than one position. -/
theorem moved_le_succ (d i : Nat) : moved d i ≤ i + 1 := by
  unfold moved
  split <;> omega

end ScopeId

/-- A function that is declared before position `d` and does not use the names of `X`. -/
def Routine.Outside (X : Scope Object Body) (d : ScopeId) (r : Routine Body) : Prop :=
  ∀ decl closure, r.body = .declared decl closure → closure < d ∧ X.Misses decl.variables

namespace Scopes

/-- Scope `i` of the first state and scope `i'` of the second one see the same: they are one
scope, or `i'` is the scope `X` put in at `d` and `i` is its parent. -/
def Sees (X : Scope Object Body) (d i i' : ScopeId) : Prop :=
  i' = ScopeId.moved d i ∨ X.parent = some i ∧ i' = d

/-- The second scopes have one more, at position `d`, and all others are where they belong. -/
structure Shape (X : Scope Object Body) (d : ScopeId) (s s' : Scopes Object Body) : Prop where
  wellFormed : s.WellFormed
  wellFormed' : s'.WellFormed
  depth : s'.depth = s.depth + 1
  le : d ≤ s.depth
  below : ∃ p < d, X.parent = some p
  parent : ∀ i a, d ≤ i → s.parentAt i = some (some a) →
    ∃ a', s'.parentAt (i + 1) = some (some a') ∧ Sees X d a a'
  current : Sees X d s.current s'.current

/-- The scopes hold the same, but for `X` and its names. -/
structure Content (X : Scope Object Body) (d : ScopeId) (s s' : Scopes Object Body) : Prop where
  inserted : s'.scopes[d]? = some X
  outer : ∀ i < d, s'.scopes[i]? = s.scopes[i]?
  vars : ∀ i name, d ≤ i → X.vars.find? name = none →
    s'.variableAt (i + 1) name = s.variableAt i name
  noFunctions : ∀ key, X.functions.find? key = none
  functions : ∀ i key, d ≤ i → s.functionAt i key = none ∧ s'.functionAt (i + 1) key = none
  outside : ∀ i key r, s.functionAt i key = some r → r.Outside X d

variable {X : Scope Object Body} {d : ScopeId} {s s₁ s' s₁' : Scopes Object Body}

namespace Shape

/-- A step keeps the positions. -/
theorem kept {declares declares' : Bool} (h : Shape X d s s') (hk : Kept declares s s₁)
    (hk' : Kept declares' s' s₁') : Shape X d s₁ s₁' where
  wellFormed := h.wellFormed.kept hk
  wellFormed' := h.wellFormed'.kept hk'
  depth := by rw [hk.depth, hk'.depth, h.depth]
  le := by rw [hk.depth]; exact h.le
  below := h.below
  parent i a hi ha := by
    rw [hk.parent] at ha
    rw [hk'.parent]
    exact h.parent i a hi ha
  current := by
    rw [hk.current, hk'.current]
    exact h.current

/-- What sees the same as an open scope is open. -/
theorem sees_lt (h : Shape X d s s') {i i' : ScopeId} (hsees : Sees X d i i')
    (hi : i < s.depth) : i' < s'.depth := by
  rw [h.depth]
  rcases hsees with rfl | ⟨-, rfl⟩
  · exact Nat.lt_of_le_of_lt (ScopeId.moved_le_succ d i) (Nat.succ_lt_succ hi)
  · exact Nat.lt_succ_of_le h.le

/-- A scope is opened on both sides, below scopes that see the same. -/
theorem enter (h : Shape X d s s') {parent parent' : ScopeId} (hsees : Sees X d parent parent')
    (hparent : parent < s.depth) : Shape X d (s.enter parent) (s'.enter parent') where
  wellFormed := h.wellFormed.enter hparent
  wellFormed' := h.wellFormed'.enter (h.sees_lt hsees hparent)
  depth := by rw [depth_enter, depth_enter, h.depth]
  le := by
    rw [depth_enter]
    exact Nat.le_succ_of_le h.le
  below := h.below
  parent i a hi ha := by
    have hlt : i < s.depth + 1 := by
      obtain ⟨scope, hscope, -⟩ := Option.map_eq_some_iff.1 ha
      exact s.depth_enter parent ▸ (List.getElem?_eq_some_iff.1 hscope).1
    rcases Nat.lt_succ_iff_lt_or_eq.1 hlt with hlt | rfl
    · rw [parentAt, Kept.scopes_enter s parent hlt] at ha
      rw [parentAt, Kept.scopes_enter s' parent' (by rw [h.depth]; exact Nat.succ_lt_succ hlt)]
      exact h.parent i a hi ha
    · have hnew : ∀ (t : Scopes Object Body) p, (t.enter p).parentAt t.depth = some (some p) := by
        intro t p
        simp [parentAt, Scopes.enter, Scopes.depth, Scope.empty]
      obtain rfl : parent = a := Option.some.inj (Option.some.inj ((hnew s parent).symm.trans ha))
      exact ⟨parent', h.depth ▸ hnew s' parent', hsees⟩
  current := .inl (by
    show s'.depth = ScopeId.moved d s.depth
    rw [ScopeId.moved_of_le h.le, h.depth])

end Shape

/-! ### Where names are found -/

/-- A search goes through the same scopes, and through `X` perhaps. -/
theorem Shape.search {γ : Type} (h : Shape X d s s') (hc : Content X d s s')
    {get : Scope Object Body → Option γ} (hX : get X = none)
    (hget : ∀ i, d ≤ i → s'.scopes[i + 1]?.bind get = s.scopes[i]?.bind get) (i' : Nat) :
    ∀ {i n n' : Nat}, Sees X d i i' → i < s.depth → i < n → i' < n' →
      s'.search get n' i' =
        (s.search get n i).map fun found => (ScopeId.moved d found.1, found.2) := by
  induction i' using Nat.strongRecOn with
  | _ i' ih =>
    intro i n n' hsees hi hn hn'
    obtain ⟨n', rfl⟩ : ∃ k, n' = k + 1 := ⟨n' - 1, by omega⟩
    rcases hsees with rfl | ⟨hparent, rfl⟩
    · obtain ⟨n, rfl⟩ : ∃ k, n = k + 1 := ⟨n - 1, by omega⟩
      have hhere : s'.scopes[ScopeId.moved d i]?.bind get = s.scopes[i]?.bind get := by
        rcases Nat.lt_or_ge i d with hlt | hge
        · rw [ScopeId.moved_of_lt hlt, hc.outer i hlt]
        · rw [ScopeId.moved_of_le hge, hget i hge]
      rw [search_succ, search_succ, hhere]
      cases s.scopes[i]?.bind get with
      | some found => rfl
      | none =>
        rcases Nat.lt_or_ge i d with hlt | hge
        · -- before `d` parents are the same, and are before `d` as well
          have hsame : s'.parentAt (ScopeId.moved d i) = s.parentAt i := by
            rw [ScopeId.moved_of_lt hlt, parentAt, parentAt, hc.outer i hlt]
          rw [hsame]
          by_cases hroot : i = root
          · rw [hroot, h.wellFormed.root]
            rfl
          · obtain ⟨a, ha, hat⟩ := h.wellFormed.parent i hroot hi
            rw [ScopeId.moved_of_lt hlt] at ih hn'
            rw [hat]
            exact ih a ha (.inl (ScopeId.moved_of_lt (Nat.lt_trans ha hlt)).symm)
              (Nat.lt_trans ha hi) (Nat.lt_of_lt_of_le ha (Nat.le_of_lt_succ hn))
              (Nat.lt_of_lt_of_le ha (Nat.le_of_lt_succ hn'))
        · obtain ⟨p, hp, -⟩ := h.below
          have hroot : i ≠ root := Nat.ne_of_gt (Nat.lt_of_lt_of_le (Nat.zero_lt_of_lt hp) hge)
          obtain ⟨a, ha, hat⟩ := h.wellFormed.parent i hroot hi
          obtain ⟨a', hat', hsees⟩ := h.parent i a hge hat
          have ha' : a' < i + 1 := by
            obtain ⟨b, hb, hb'⟩ := h.wellFormed'.parent (i + 1) (Nat.succ_ne_zero i)
              (h.depth ▸ Nat.succ_lt_succ hi)
            cases hat'.symm.trans hb'
            exact hb
          rw [ScopeId.moved_of_le hge] at ih hn' ⊢
          rw [hat, hat']
          exact ih a' ha' hsees (Nat.lt_trans ha hi) (Nat.lt_of_lt_of_le ha (Nat.le_of_lt_succ hn))
            (Nat.lt_of_lt_of_le ha' (Nat.le_of_lt_succ hn'))
    · -- nothing is found in `X`, whose parent is before it
      obtain ⟨p, hp, hat⟩ := h.below
      obtain rfl : i = p := Option.some.inj (hparent.symm.trans hat)
      rw [search_succ, parentAt, hc.inserted, Option.bind_some, hX, Option.map_some, hparent]
      exact ih i hp (.inl (ScopeId.moved_of_lt hp).symm) hi hn
        (Nat.lt_of_lt_of_le hp (Nat.le_of_lt_succ hn'))

section Find

variable (h : Shape X d s s') (hc : Content X d s s') {name : String}
include h hc

/-- A variable is found at the same place, if its name is none of those of `X`. -/
theorem Shape.resolve?_variable (hname : X.vars.find? name = none) :
    (s'.resolve? fun scope => scope.vars.find? name) =
      (s.resolve? fun scope => scope.vars.find? name).map fun found =>
        (ScopeId.moved d found.1, found.2) :=
  h.search hc hname (fun i hi => hc.vars i name hi hname) s'.current h.current
    h.wellFormed.current h.wellFormed.current h.wellFormed'.current

/-- A variable that `X` does not hold is found, or not found, in both. -/
theorem Shape.findVariable? (hname : X.vars.find? name = none) :
    s'.findVariable? name = s.findVariable? name := by
  rw [Scopes.findVariable?, h.resolve?_variable hc hname, Option.map_map]
  rfl

/-- A function is found in both, or in none: `X` holds none. -/
theorem Shape.findFunction? (name : String) (arity : Nat) :
    s'.findFunction? name arity = s.findFunction? name arity := by
  have hresolve := h.search hc (hc.noFunctions (name, arity))
    (fun i hi => (hc.functions i _ hi).2.trans (hc.functions i _ hi).1.symm) s'.current h.current
    h.wellFormed.current h.wellFormed.current h.wellFormed'.current
  rw [Scopes.findFunction?, Scopes.resolve?, hresolve, Option.map_map]
  rfl

end Find

/-! ### What changes keep -/

namespace Content

variable (hc : Content X d s s')
include hc

/-- Something is stored at the same place. -/
theorem setVariable (h : Shape X d s s') (i : ScopeId) (name : String) (v : Variable Object) :
    Content X d (s.modify i (·.setVariable name v))
      (s'.modify (ScopeId.moved d i) (·.setVariable name v)) where
  inserted := by
    rw [scopes_modify, if_neg (ScopeId.moved_ne d i)]
    exact hc.inserted
  outer j hj := by simp only [scopes_modify, ScopeId.moved_eq_iff hj, hc.outer j hj]
  vars j name' hj hname' := by
    have hmap : (s'.scopes[j + 1]?.map fun _ => v) = s.scopes[j]?.map fun _ => v := by
      have hdepth : s'.scopes.length = s.scopes.length + 1 := h.depth
      rcases Nat.lt_or_ge j s.scopes.length with hlt | hge
      · rw [List.getElem?_eq_getElem hlt, List.getElem?_eq_getElem (by omega)]
        rfl
      · rw [List.getElem?_eq_none hge, List.getElem?_eq_none (by omega)]
    simp only [variableAt_modify_setVariable, ScopeId.moved_eq_succ_iff hj, hmap,
      hc.vars j name' hj hname']
  noFunctions := hc.noFunctions
  functions j key hj := by
    rw [functionAt_setVariable, functionAt_setVariable]
    exact hc.functions j key hj
  outside j key r hr := by
    rw [functionAt_setVariable] at hr
    exact hc.outside j key r hr

/-- New scopes hold nothing, so the contents still agree. -/
theorem enter (h : Shape X d s s') (parent parent' : ScopeId) :
    Content X d (s.enter parent) (s'.enter parent') where
  inserted := by
    rw [Kept.scopes_enter s' parent' (h.depth ▸ Nat.lt_succ_of_le h.le)]
    exact hc.inserted
  outer i hi := by
    have hlt : i < s.depth := Nat.lt_of_lt_of_le hi h.le
    rw [Kept.scopes_enter s parent hlt,
      Kept.scopes_enter s' parent' (h.depth ▸ Nat.lt_succ_of_lt hlt)]
    exact hc.outer i hi
  vars i name hi hname := by
    rw [variableAt_enter, variableAt_enter]
    exact hc.vars i name hi hname
  noFunctions := hc.noFunctions
  functions i key hi := by
    rw [functionAt_enter, functionAt_enter]
    exact hc.functions i key hi
  outside i key r hr := by
    rw [functionAt_enter] at hr
    exact hc.outside i key r hr

/-- Scopes behind the new one are closed on both sides. -/
theorem leave {frame frame' : Frame} (hdepth : frame'.depth = frame.depth + 1)
    (hle : d ≤ frame.depth) : Content X d (s.leave frame) (s'.leave frame') where
  inserted := by
    rw [Kept.scopes_leave, hdepth, if_pos (Nat.lt_succ_of_le hle)]
    exact hc.inserted
  outer i hi := by
    have hlt : i < frame.depth := Nat.lt_of_lt_of_le hi hle
    rw [Kept.scopes_leave, Kept.scopes_leave, if_pos hlt, hdepth, if_pos (Nat.lt_succ_of_lt hlt)]
    exact hc.outer i hi
  vars i name hi hname := by
    rw [variableAt_leave, variableAt_leave, hdepth]
    simp only [Nat.add_lt_add_iff_right, hc.vars i name hi hname]
  noFunctions := hc.noFunctions
  functions i key hi := by
    have hnone := hc.functions i key hi
    refine ⟨Option.eq_none_iff_forall_ne_some.2 fun r hr => ?_,
      Option.eq_none_iff_forall_ne_some.2 fun r hr => ?_⟩
    · cases hnone.1.symm.trans (functionAt_of_leave hr)
    · cases hnone.2.symm.trans (functionAt_of_leave hr)
  outside i key r hr := hc.outside i key r (functionAt_of_leave hr)

end Content

/-! ### Definitions and assignments -/

/-- From scope `d` on the current scopes are one scope. -/
theorem Shape.current_eq (h : Shape X d s s') (hinner : d ≤ s.current) :
    s'.current = s.current + 1 := by
  rcases h.current with hmoved | ⟨hparent, -⟩
  · exact hmoved.trans (ScopeId.moved_of_le hinner)
  · obtain ⟨p, hp, hat⟩ := h.below
    obtain rfl : s.current = p := Option.some.inj (hparent.symm.trans hat)
    exact absurd hp (Nat.not_lt.2 hinner)

/-- How the definitions of a variable in both states compare. -/
theorem Shape.defineVariable (h : Shape X d s s') (hc : Content X d s s') (hinner : d ≤ s.current)
    {v : Variable Object} (hname : X.vars.find? v.name = none) :
    (∃ e, s.defineVariable v = .error e ∧ s'.defineVariable v = .error e) ∨
      ∃ t t', s.defineVariable v = .ok t ∧ s'.defineVariable v = .ok t' ∧ Content X d t t' := by
  have hcurrent := h.current_eq hinner
  have hdefined : ∀ t : Scopes Object Body, (t.scopes[t.current]?).any (·.vars.contains v.name) =
      (t.variableAt t.current v.name).isSome := fun t => by
    rw [variableAt]
    cases t.scopes[t.current]? <;> rfl
  have hsame : s'.variableAt s'.current v.name = s.variableAt s.current v.name := by
    rw [hcurrent]
    exact hc.vars s.current v.name hinner hname
  simp only [Scopes.defineVariable, hdefined, hsame]
  split
  · exact .inl ⟨_, rfl, rfl⟩
  · have hset := hc.setVariable h s.current v.name v
    rw [ScopeId.moved_of_le hinner, ← hcurrent] at hset
    exact .inr ⟨_, _, rfl, rfl, hset⟩

/-- How the assignments to a variable that is found compare. -/
theorem Shape.assign? (h : Shape X d s s') (hc : Content X d s s') {name : String}
    (hname : X.vars.find? name = none) {v : Variable Object} (hfind : s.findVariable? name = some v)
    (value : Object) :
    ∃ t t', s.assign? name value = some t ∧ s'.assign? name value = some t' ∧ Content X d t t' := by
  obtain ⟨⟨i, v'⟩, hresolve, -⟩ := Option.map_eq_some_iff.1 hfind
  have hresolve' := h.resolve?_variable hc hname
  rw [hresolve, Option.map_some] at hresolve'
  rw [Scopes.assign?, Scopes.assign?, hresolve, hresolve']
  exact ⟨_, _, rfl, rfl, hc.setVariable h i name _⟩

end Scopes

/-! ### States -/

/-- The second state has one more scope, and is the same apart from it. -/
structure Machine.Inserted (X : Scope Object Body) (d : ScopeId) (m m' : Machine) : Prop where
  shape : Scopes.Shape X d m.scopes m'.scopes
  content : Scopes.Content X d m.scopes m'.scopes
  heap : m'.heap = m.heap
  output : m'.output = m.output

end Scriptlet
