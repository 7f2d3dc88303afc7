import Scriptlet.Proofs.ScopeKept

/-!
# Where functions are declared

In the run of a program functions are defined in the root only, and they see the root.
Every other scope has a parent that was opened before it.  `Scopes.Lexical` holds in every
state that occurs in a run (`Machine.OccursIn.lexical`): it is a lawful regime.
-/

namespace Scriptlet

/-- Every scope but the root has a parent, which was opened before it, and the current
scope is open. -/
structure Scopes.WellFormed {α β : Type} (s : Scopes α β) : Prop where
  root : s.parentAt Scopes.root = some none
  parent : ∀ i, i ≠ Scopes.root → i < s.depth → ∃ parent < i, s.parentAt i = some (some parent)
  current : s.current < s.depth

namespace Scopes.WellFormed

variable {α β : Type} {s s' : Scopes α β}

/-- There is always the root. -/
theorem depth_pos (h : s.WellFormed) : 0 < s.depth := Nat.zero_lt_of_lt h.current

/-- What keeps scopes keeps their parents. -/
theorem kept {declares : Bool} (h : s.WellFormed) (hkept : Kept declares s s') :
    s'.WellFormed where
  root := (hkept.parent Scopes.root).trans h.root
  parent i hi hlt := by
    rw [hkept.parent i]
    exact h.parent i hi (hkept.depth ▸ hlt)
  current := by
    rw [hkept.current, hkept.depth]
    exact h.current

/-- A parent was opened before its scope. -/
theorem parent_lt (h : s.WellFormed) {id parent : ScopeId} {scope : Scope α β}
    (hscope : s.scopes[id]? = some scope) (hparent : scope.parent = some parent) : parent < id := by
  have hat : s.parentAt id = some (some parent) := by
    rw [parentAt, hscope, Option.map_some, hparent]
  by_cases hroot : id = Scopes.root
  · subst hroot
    cases hat.symm.trans h.root
  · obtain ⟨parent', hlt, hat'⟩ := h.parent id hroot (List.getElem?_eq_some_iff.1 hscope).1
    cases hat.symm.trans hat'
    exact hlt

/-- Only the root has no parent. -/
theorem eq_root (h : s.WellFormed) {id : ScopeId} {scope : Scope α β}
    (hscope : s.scopes[id]? = some scope) (hparent : scope.parent = none) : id = Scopes.root := by
  by_contra hroot
  obtain ⟨parent, -, hat⟩ := h.parent id hroot (List.getElem?_eq_some_iff.1 hscope).1
  rw [parentAt, hscope, Option.map_some, hparent] at hat
  cases hat

/-- A scope is opened, whatever it holds. -/
theorem push (h : s.WellFormed) {scope : Scope α β} {parent : ScopeId}
    (hscope : scope.parent = some parent) (hparent : parent < s.depth) :
    (⟨s.scopes ++ [scope], s.depth⟩ : Scopes α β).WellFormed := by
  have hbefore : ∀ i < s.depth,
      (⟨s.scopes ++ [scope], s.depth⟩ : Scopes α β).parentAt i = s.parentAt i := fun i hi => by
    rw [parentAt, parentAt, List.getElem?_append_left hi]
  have hnew : (⟨s.scopes ++ [scope], s.depth⟩ : Scopes α β).parentAt s.depth =
      some (some parent) := by
    simp [parentAt, depth, hscope]
  have hdepth : (⟨s.scopes ++ [scope], s.depth⟩ : Scopes α β).depth = s.depth + 1 := by
    simp [depth]
  refine ⟨(hbefore _ h.depth_pos).trans h.root, fun i hi hlt => ?_, ?_⟩
  · rcases Nat.lt_or_ge i s.depth with hlt' | hge
    · rw [hbefore i hlt']
      exact h.parent i hi hlt'
    · rw [hdepth] at hlt
      obtain rfl : i = s.depth := Nat.le_antisymm (Nat.lt_succ_iff.1 hlt) hge
      exact ⟨parent, hparent, hnew⟩
  · rw [hdepth]
    exact Nat.lt_succ_self _

/-- A new scope is below an open one. -/
theorem enter (h : s.WellFormed) {parent : ScopeId} (hparent : parent < s.depth) :
    (s.enter parent).WellFormed := h.push rfl hparent

end Scopes.WellFormed

/-- A function that sees the root if it is declared in the program. -/
def Routine.Lexical (r : Routine Body) : Prop :=
  ∀ decl closure, r.body = .declared decl closure → closure = Scopes.root

/-- The scopes of a run: functions are defined in the root only, and see the root. -/
structure Scopes.Lexical (s : Scopes Object Body) : Prop where
  wellFormed : s.WellFormed
  inner : ∀ (i : ScopeId) scope, s.scopes[i]? = some scope → i ≠ Scopes.root →
    scope.functions = .empty
  closure : ∀ (i : ScopeId) scope key r, s.scopes[i]? = some scope →
    scope.functions.find? key = some r → r.Lexical

namespace Scopes.Lexical

variable {s s' : Scopes Object Body}

/-- A function that is found sees the root. -/
theorem findFunction? (h : s.Lexical) {name : String} {n : Nat} {r : Routine Body}
    (hr : s.findFunction? name n = some r) : r.Lexical := by
  obtain ⟨⟨i, r'⟩, hresolve, rfl⟩ := Option.map_eq_some_iff.1 hr
  obtain ⟨scope, hscope, hfind⟩ := scope_of_search s.depth hresolve
  exact h.closure i scope _ _ hscope hfind

/-- **A function is found in the root**, from wherever it is looked up. -/
theorem findFunction?_eq (h : s.Lexical) (name : String) (arity : Nat) :
    s.findFunction? name arity =
      s.scopes[root]?.bind fun scope => scope.functions.find? (name, arity) := by
  have hsearch : ∀ n id : Nat, id < n → id < s.depth →
      (s.search (fun scope => scope.functions.find? (name, arity)) n id).map Prod.snd =
        s.scopes[root]?.bind fun scope => scope.functions.find? (name, arity) := by
    intro n
    induction n with
    | zero => exact fun id hn => absurd hn (Nat.not_lt_zero id)
    | succ n ih =>
      intro id hn hid
      obtain ⟨scope, hscope⟩ : ∃ scope, s.scopes[id]? = some scope :=
        ⟨_, List.getElem?_eq_getElem hid⟩
      rw [search, hscope]
      cases hparent : scope.parent with
      | none =>
        obtain rfl := h.wellFormed.eq_root hscope hparent
        simp only [hscope, Option.bind_some, hparent]
        cases scope.functions.find? (name, arity) <;> rfl
      | some parent =>
        have hlt := h.wellFormed.parent_lt hscope hparent
        have hempty := h.inner id scope hscope (Nat.ne_of_gt (Nat.zero_lt_of_lt hlt))
        simp only [hempty, Table.find?_empty, hparent]
        exact ih parent (Nat.lt_of_lt_of_le hlt (Nat.lt_succ_iff.1 hn)) (Nat.lt_trans hlt hid)
  exact hsearch s.depth s.current h.wellFormed.current h.wellFormed.current

/-- One scope is changed, and its functions are the same. -/
theorem modify (h : s.Lexical) (id : ScopeId) {f : Scope Object Body → Scope Object Body}
    (hf : ∀ scope, (f scope).functions = scope.functions)
    {declares : Bool} (hkept : Kept declares s (s.modify id f)) : (s.modify id f).Lexical := by
  have hscopes : ∀ (i : ScopeId) scope, (s.modify id f).scopes[i]? = some scope →
      ∃ before, s.scopes[i]? = some before ∧ scope.functions = before.functions := by
    intro i scope hscope
    rw [Scopes.modify, List.getElem?_modify] at hscope
    obtain ⟨before, hbefore, rfl⟩ := Option.map_eq_some_iff.1 hscope
    refine ⟨before, hbefore, ?_⟩
    split
    · exact hf before
    · rfl
  refine ⟨h.wellFormed.kept hkept, fun i scope hscope hi => ?_, fun i scope key r hscope hr => ?_⟩
  · obtain ⟨before, hbefore, heq⟩ := hscopes i scope hscope
    rw [heq]
    exact h.inner i before hbefore hi
  · obtain ⟨before, hbefore, heq⟩ := hscopes i scope hscope
    exact h.closure i before key r hbefore (heq ▸ hr)

/-- To define a variable defines no function. -/
theorem defineVariable (h : s.Lexical) {v : Variable Object}
    (hdefine : s.defineVariable v = .ok s') : s'.Lexical := by
  have hkept := Kept.defineVariable hdefine
  rw [Scopes.defineVariable] at hdefine
  split at hdefine
  · cases hdefine
  · cases hdefine
    exact h.modify s.current (fun _ => rfl) hkept

/-- An assignment defines no function. -/
theorem assign (h : s.Lexical) {name : String} {value : Object}
    (hassign : s.assign? name value = some s') : s'.Lexical := by
  have hkept := Kept.assign hassign
  rw [Scopes.assign?] at hassign
  split at hassign
  · cases hassign
  · cases hassign
    exact h.modify _ (fun _ => rfl) hkept

/-- A function that sees the root is defined in the root. -/
theorem defineFunction (h : s.Lexical) (hroot : s.current = root) {r : Routine Body}
    (hr : r.Lexical) (hdefine : s.defineFunction r = .ok s') : s'.Lexical := by
  have hkept := Kept.defineFunction hdefine
  rw [Scopes.defineFunction] at hdefine
  split at hdefine
  · cases hdefine
  cases hdefine
  have hscopes : ∀ (i : ScopeId) scope,
      (s.modify s.current (·.addFunction r)).scopes[i]? = some scope →
      ∃ before, s.scopes[i]? = some before ∧
        scope = if s.current = i then before.addFunction r else before := by
    intro i scope hscope
    rw [Scopes.modify, List.getElem?_modify] at hscope
    obtain ⟨before, hbefore, rfl⟩ := Option.map_eq_some_iff.1 hscope
    exact ⟨before, hbefore, by split <;> rfl⟩
  refine ⟨h.wellFormed.kept hkept, fun i scope hscope hi => ?_, fun i scope key r' hscope hr' => ?_⟩
  · obtain ⟨before, hbefore, rfl⟩ := hscopes i scope hscope
    rw [if_neg (by rw [hroot]; exact Ne.symm hi)]
    exact h.inner i before hbefore hi
  · obtain ⟨before, hbefore, rfl⟩ := hscopes i scope hscope
    split at hr'
    · rw [Scope.addFunction, Table.find?_insert] at hr'
      split at hr'
      · cases hr'
        exact hr
      · exact h.closure i before key r' hbefore hr'
    · exact h.closure i before key r' hbefore hr'

/-- A new scope holds no function. -/
theorem enter (h : s.Lexical) {parent : ScopeId} (hparent : parent < s.depth) :
    (s.enter parent).Lexical := by
  have hscopes : ∀ (i : ScopeId) scope, (s.enter parent).scopes[i]? = some scope →
      s.scopes[i]? = some scope ∨ scope.functions = .empty := by
    intro i scope hscope
    rcases Nat.lt_or_ge i s.depth with hlt | hge
    · exact .inl ((Kept.scopes_enter s parent hlt).symm.trans hscope)
    · rw [Scopes.enter, List.getElem?_append_right hge] at hscope
      obtain rfl := List.mem_singleton.1 (List.mem_of_getElem? hscope)
      exact .inr rfl
  refine ⟨h.wellFormed.enter hparent, fun i scope hscope hi => ?_,
    fun i scope key r hscope hr => ?_⟩
  · rcases hscopes i scope hscope with hbefore | hempty
    · exact h.inner i scope hbefore hi
    · exact hempty
  · rcases hscopes i scope hscope with hbefore | hempty
    · exact h.closure i scope key r hbefore hr
    · rw [hempty, Table.find?_empty] at hr
      cases hr

/-- After a step in a scope of its own, what is left is as before. -/
theorem leave (h : s.Lexical) {parent : ScopeId} (h' : s'.Lexical)
    (hkept : Kept true (s.enter parent) s') : (s'.leave s.frame).Lexical := by
  have hscopes : ∀ (i : ScopeId) scope, (s'.leave s.frame).scopes[i]? = some scope →
      s'.scopes[i]? = some scope := by
    intro i scope hscope
    rw [Scopes.leave, List.getElem?_take] at hscope
    split at hscope
    · exact hscope
    · cases hscope
  exact ⟨h.wellFormed.kept hkept.leave,
    fun i scope hscope => h'.inner i scope (hscopes i scope hscope),
    fun i scope key r hscope => h'.closure i scope key r (hscopes i scope hscope)⟩

/-- At first there is the root with the builtin functions. -/
theorem start (limit : Option Nat) : (Machine.start limit).scopes.Lexical := by
  refine ⟨⟨rfl, fun i hi hlt => ?_, Nat.zero_lt_one⟩, fun i scope hscope hi => ?_,
    fun i scope key r hscope hr => ?_⟩
  · exact absurd (Nat.lt_one_iff.1 hlt) hi
  · have hlt := (List.getElem?_eq_some_iff.1 hscope).1
    exact absurd (Nat.lt_one_iff.1 hlt) hi
  · obtain rfl := List.mem_singleton.1 (List.mem_of_getElem? hscope)
    have hprint : r = .print .print := by
      change (Table.insert .empty ("print", 1) (Routine.print Body.print)).find? key = some r at hr
      rw [Table.find?_insert] at hr
      split at hr
      · exact (Option.some.inj hr).symm
      · cases hr
    subst hprint
    intro decl closure hbody
    cases hbody

end Scopes.Lexical

/-- The scopes are kept, and functions see the root. -/
def Regime.lexical : Regime where
  Holds m := m.scopes.Lexical
  Change declares m m' := Scopes.Kept declares m.scopes m'.scopes
  Callable r := r.Lexical

/-- Runs keep functions in the root. -/
theorem Regime.lexical_lawful : Regime.lexical.Lawful where
  refl m := .refl m.scopes
  trans h h' := h.trans h'
  weaken h := h.weaken
  frame h := h.frame
  close frame _ _ hcurrent h := .close frame hcurrent h
  callable hm hr := hm.findFunction? hr
  declare h hm := ⟨hm.defineVariable h, .defineVariable h⟩
  function hroot h hm := by
    refine ⟨hm.defineFunction hroot (fun decl closure hbody => ?_) h, .defineFunction h⟩
    cases hbody
    exact hroot
  assign _ _ h hm := ⟨hm.assign h, .assign h⟩
  alloc m _ hm := ⟨hm, .refl m.scopes⟩
  write m _ _ _ hm := ⟨hm, .refl m.scopes⟩
  native {m} _ _ _ _ _ _ _ _ hm := ⟨hm, .refl m.scopes⟩
  print m _ hm := ⟨hm, .refl m.scopes⟩
  scope {m parent} hm hparent := by
    have hlt : parent < m.scopes.depth := by
      rcases hparent with rfl | ⟨r, decl, hr, hbody⟩
      · exact hm.wellFormed.current
      · rw [hr decl parent hbody]
        exact hm.wellFormed.depth_pos
    exact ⟨hm.enter hlt, fun m' hm' hkept => hm.leave hm' hkept⟩

/-- A state that occurs in a run of a program: the last one, or one that a watched run
records. -/
def Machine.OccursIn (p : Source) (m : Machine) : Prop :=
  ∃ fuel limit, let w := after (Watch.source fuel p) (Watch.start limit)
    m = w.machine ∨ ∃ moment ∈ w.record, m = moment.machine

/-- **In every state of a run functions are defined in the root and see the root.** -/
theorem Machine.OccursIn.lexical {p : Source} {m : Machine} (h : m.OccursIn p) :
    m.scopes.Lexical := by
  obtain ⟨fuel, limit, hm⟩ := h
  have hpasses :=
    Regime.source_obeys Regime.lexical_lawful fuel p (Watch.start limit) (.start limit) rfl
  rcases hm with rfl | ⟨moment, hmoment, rfl⟩
  · exact hpasses.holds
  · rcases hpasses.record moment hmoment with hstart | hholds
    · cases hstart
    · exact hholds

end Scriptlet
