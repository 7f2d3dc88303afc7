import Scriptlet.Proofs.Inserted

/-!
# Steps that do not see a scope

A step is blind to a scope `X` at position `d` if it does the same with `X` put in as without
it (`Blind`).  Every part of a program that names no variable of `X` is blind to it
(`blindAt`): a basic step by what it looks up, all others because blind steps can be put
together.

| step | is blind |
| --- | --- |
| an expression, a call | from every scope |
| a declaration, a statement | from the scopes from `d` on |
| a step in a scope of its own | from every scope |

So an expression has the value in a new scope that it has outside of it (`Blind.beside`), and it
does not matter whether a block that has a scope to itself is given one more
(`Blind.inScope_beside`).
-/

namespace Scriptlet

variable {α β : Type} {X : Scope Object Body} {d : ScopeId}

/-- Two steps answer the same, or fail with the same error, and leave related states. -/
inductive Ending.Agree (R : Machine → Machine → Prop) : Ending α → Ending α → Prop
  | ok (a : α) {n n' : Machine} : R n n' → Agree R (.ok a n) (.ok a n')
  | error (e : Halt) {n n' : Machine} : R n n' → Agree R (.error e n) (.error e n')

/-- The scope is still put in, and no scopes were opened or closed. -/
structure Machine.Stays (X : Scope Object Body) (d : ScopeId) (m m' n n' : Machine) : Prop where
  inserted : n.Inserted X d n'
  kept : Scopes.Kept true m.scopes n.scopes
  kept' : Scopes.Kept true m'.scopes n'.scopes

namespace Machine.Stays

variable {m m' n n' k k' : Machine}

/-- Nothing has happened yet. -/
theorem refl (h : m.Inserted X d m') : Stays X d m m' m m' := ⟨h, .refl _, .refl _⟩

/-- One step after the other. -/
theorem trans (h : Stays X d m m' n n') (h' : Stays X d n n' k k') : Stays X d m m' k k' :=
  ⟨h'.inserted, h.kept.trans h'.kept, h.kept'.trans h'.kept'⟩

/-- The scopes are changed, and hold the same afterwards. -/
theorem of_kept (h : m.Inserted X d m') {s s' : Scopes Object Body}
    (hk : Scopes.Kept true m.scopes s) (hk' : Scopes.Kept true m'.scopes s')
    (hc : Scopes.Content X d s s') :
    Stays X d m m' { m with scopes := s } { m' with scopes := s' } :=
  ⟨⟨h.shape.kept hk hk', hc, h.heap, h.output⟩, hk, hk'⟩

end Machine.Stays

/-- The step does the same with `X` put in at `d`; with `inner`, if it is made in a scope from
`d` on. -/
def Blind (X : Scope Object Body) (d : ScopeId) (inner : Bool) (x : Eval α) : Prop :=
  ∀ m m', m.Inserted X d m' → (inner = true → d ≤ m.scopes.current) →
    Ending.Agree (Machine.Stays X d m m') (x m) (x m')

namespace Blind

variable {inner : Bool}

/-- A step that is blind from every scope is so from the scopes from `d` on. -/
theorem weaken {x : Eval α} (h : Blind X d false x) : Blind X d true x := fun m m' hm _ =>
  h m m' hm nofun

/-- One blind step after the other. -/
theorem bind {x : Eval α} {g : α → Eval β} (hx : Blind X d inner x)
    (hg : ∀ m a m', x m = .ok a m' → Blind X d inner (g a)) : Blind X d inner (x >>= g) := by
  intro m m' hm hinner
  have hfirst := hx m m' hm hinner
  show Ending.Agree _ (EStateM.bind x g m) (EStateM.bind x g m')
  unfold EStateM.bind
  generalize hr : x m = r, x m' = r' at hfirst
  cases hfirst with
  | error e hstays => exact .error e hstays
  | @ok a n n' hstays =>
    have hnext := hg m a n hr n n' hstays.inserted fun h => hstays.kept.current ▸ hinner h
    show Ending.Agree _ (g a n) (g a n')
    generalize g a n = r, g a n' = r' at hnext
    cases hnext with
    | ok b hstays' => exact .ok b (hstays.trans hstays')
    | error e hstays' => exact .error e (hstays.trans hstays')

/-! ### Basic steps -/

/-- A step that neither looks at the scopes nor changes them. -/
theorem of_scopeless {x : Eval α} (h : x.Scopeless) : Blind X d inner x := by
  intro m m' hm _
  have hsame := h m m.scopes
  have hother := h m m'.scopes
  rw [show { m with scopes := m'.scopes } = m' by rw [← hm.heap, ← hm.output]] at hother
  have hstays : ∀ n : Machine, n = { n with scopes := m.scopes } →
      Machine.Stays X d m m' n { n with scopes := m'.scopes } := fun n hn => by
    rw [hn]
    exact ⟨⟨hm.shape, hm.content, rfl, rfl⟩, .refl _, .refl _⟩
  rw [hother]
  generalize x m = r at hsame
  cases r with
  | ok a n => exact .ok a (hstays n (EStateM.Result.ok.inj hsame).2)
  | error e n => exact .error e (hstays n (EStateM.Result.error.inj hsame).2)

/-- A variable that `X` does not hold is found at the same place. -/
theorem lookupVariable {name : String} (hname : X.vars.find? name = none) :
    Blind X d inner (Eval.lookupVariable name) := by
  intro m m' hm _
  rw [Eval.lookupVariable, Eval.lookupVariable, hm.shape.findVariable? hm.content hname]
  cases m.scopes.findVariable? name with
  | some v => exact .ok v (.refl hm)
  | none => exact .error _ (.refl hm)

/-- What is called was declared outside, and does not use the names of `X`. -/
theorem lookupFunction (name : String) (arity : Nat) {next : Routine Body → Eval α}
    (h : ∀ r, r.Outside X d → Blind X d inner (next r)) :
    Blind X d inner (do next (← Eval.lookupFunction name arity)) := by
  intro m m' hm hinner
  have hfind' := hm.shape.findFunction? hm.content name arity
  cases hfind : m.scopes.findFunction? name arity with
  | some r =>
    obtain ⟨i, hat⟩ := Scopes.functionAt_of_findFunction? hfind
    rw [bind_eq (by rw [Eval.lookupFunction, hfind]) next,
      bind_eq (s := m') (by rw [Eval.lookupFunction, hfind', hfind]) next]
    exact h r (hm.content.outside i _ r hat) m m' hm hinner
  | none =>
    rw [bind_eq_error (by rw [Eval.lookupFunction, hfind]; rfl) next,
      bind_eq_error (s := m') (by rw [Eval.lookupFunction, hfind', hfind]; rfl) next]
    exact .error _ (.refl hm)

/-- A variable that `X` does not hold gets the value at the same place. -/
theorem assignVariable {name : String} (hname : X.vars.find? name = none) (value : Object) :
    Blind X d inner (Eval.assignVariable name value) := by
  intro m m' hm _
  rw [Eval.assignVariable_eq, Eval.assignVariable_eq, hm.shape.findVariable? hm.content hname]
  cases hfind : m.scopes.findVariable? name with
  | none => exact .error _ (.refl hm)
  | some v =>
    obtain ⟨s, s', hs, hs', hcontent⟩ := hm.shape.assign? hm.content hname hfind value
    simp only [hs, hs', Option.getD_some]
    split
    · have hk := Scopes.Kept.weaken (Scopes.Kept.assign hs)
      have hk' := Scopes.Kept.weaken (Scopes.Kept.assign hs')
      exact .ok () (.of_kept hm hk hk' hcontent)
    · exact .error _ (.refl hm)

/-- From the scopes from `d` on, a variable is declared in one and the same scope. -/
theorem defineVariable {v : Variable Object} (hname : X.vars.find? v.name = none) :
    Blind X d true (Eval.defineVariable v) := by
  intro m m' hm hinner
  unfold Eval.defineVariable
  rcases hm.shape.defineVariable hm.content (hinner rfl) hname with
    ⟨e, hs, hs'⟩ | ⟨s, s', hs, hs', hcontent⟩
  · rw [hs, hs']
    exact .error _ (.refl hm)
  · rw [hs, hs']
    exact .ok () (.of_kept hm (.defineVariable hs) (.defineVariable hs') hcontent)

/-! ### Scopes of their own -/

/-- A scope is opened below scopes that see the same, and is closed again. -/
theorem inScopeOf_of_sees {x : Eval α} (hx : Blind X d true x) {m m' : Machine}
    (hm : m.Inserted X d m') {parent parent' : ScopeId} (hsees : Scopes.Sees X d parent parent')
    (hparent : parent < m.scopes.depth) :
    Ending.Agree (Machine.Stays X d m m') (Eval.inScopeOf parent x m)
      (Eval.inScopeOf parent' x m') := by
  have henter : (m.enter parent).Inserted X d (m'.enter parent') :=
    ⟨hm.shape.enter hsees hparent, hm.content.enter hm.shape parent parent', hm.heap, hm.output⟩
  have hclose : ∀ {n n' : Machine},
      Machine.Stays X d (m.enter parent) (m'.enter parent') n n' →
      Machine.Stays X d m m' (n.leave m.scopes.frame) (n'.leave m'.scopes.frame) := by
    intro n n' hstays
    have hk := Scopes.Kept.weaken (Scopes.Kept.leave hstays.kept)
    have hk' := Scopes.Kept.weaken (Scopes.Kept.leave hstays.kept')
    exact ⟨⟨hm.shape.kept hk hk', hstays.inserted.content.leave hm.shape.depth hm.shape.le,
      hstays.inserted.heap, hstays.inserted.output⟩, hk, hk'⟩
  have hinner := hx _ _ henter fun _ => hm.shape.le
  rw [inScopeOf_eq, inScopeOf_eq]
  generalize x (m.enter parent) = r, x (m'.enter parent') = r' at hinner
  cases hinner with
  | ok a hstays => exact .ok a (hclose hstays)
  | error e hstays => exact .error e (hclose hstays)

/-- A step in a scope of its own below a scope before `d`. -/
theorem inScopeOf {x : Eval α} (hx : Blind X d true x) {parent : ScopeId} (hparent : parent < d) :
    Blind X d inner (Eval.inScopeOf parent x) := fun _ _ hm _ =>
  hx.inScopeOf_of_sees hm (.inl (ScopeId.moved_of_lt hparent).symm)
    (Nat.lt_of_lt_of_le hparent hm.shape.le)

/-- A step in a scope of its own below the current one. -/
theorem inScope {x : Eval α} (hx : Blind X d true x) : Blind X d inner (Eval.inScope x) :=
  fun _ _ hm _ => hx.inScopeOf_of_sees hm hm.shape.current hm.shape.wellFormed.current

end Blind

/-! ### Parts of programs -/

/-- The walk that shows that steps are blind.  They name no variable of `X` and call functions
that were declared outside. -/
def blinding (X : Scope Object Body) (d : ScopeId) : Walk where
  Step inner x := Blind X d inner x
  Rel inner _ y := Blind X d inner y
  Named name := X.vars.find? name = none
  Callable r _ := r.Outside X d

/-- Basic steps that name no variable of `X` are blind to it, and blind steps can be put
together. -/
theorem blinding_lawful (X : Scope Object Body) (d : ScopeId) : (blinding X d).Lawful where
  andThen hx hf := Blind.bind hx fun _ a _ _ => hf a
  reads f _ := .of_scopeless (Eval.reads_scopeless f)
  lookupVariable hname := .lookupVariable hname
  assignVariable hname value := .assignVariable hname value
  defineVariable hname := .defineVariable hname
  allocList _ := .of_scopeless fun _ _ => rfl
  write _ _ _ := .of_scopeless fun _ _ => rfl
  printLine o := .of_scopeless (Eval.printLine_scopeless o)
  callNative _ _ := .of_scopeless (Eval.callNative_scopeless _ _ _)
  mismatch _ _ := .of_scopeless fun _ _ => rfl
  basic hx := hx
  weaken h := Blind.weaken h
  pure _ := .of_scopeless fun _ _ => rfl
  note _ := .of_scopeless fun _ _ => rfl
  place _ := .of_scopeless fun _ _ => rfl
  seq _ _ hP hx hf := Blind.bind hx fun m a m' ha => hf a (hP m a m' ha)
  lookupFunction name n hf := .lookupFunction name n hf
  inScope h := Blind.inScope h
  inScopeOf hr hbody h := Blind.inScopeOf h (hr _ _ hbody).1
  names hr hbody := (hr _ _ hbody).2

/-- **Every part of a program is blind to a scope whose variables it does not name.** -/
theorem blindAt (X : Scope Object Body) (d : ScopeId) (fuel : Nat) :
    (blinding X d).RelAt fuel fuel :=
  (blinding_lawful X d).relAt (.of_scopeless fun _ _ => rfl) fuel

/-! ### A new scope -/

/-- A scope that holds something is opened. -/
def Machine.beside (X : Scope Object Body) (m : Machine) : Machine :=
  { m with scopes := ⟨m.scopes.scopes ++ [X], m.scopes.depth⟩ }

/-- Every scope but the root has a parent that was opened before it, and functions see scopes
that are open. -/
structure Scopes.Anchored (s : Scopes Object Body) : Prop where
  wellFormed : s.WellFormed
  closure : ∀ i key r, s.functionAt i key = some r →
    ∀ decl closure, r.body = .declared decl closure → closure < s.depth

/-- Functions that see the root see an open scope. -/
theorem Scopes.Lexical.anchored {s : Scopes Object Body} (h : s.Lexical) : s.Anchored where
  wellFormed := h.wellFormed
  closure i key r hr decl closure hbody := by
    obtain ⟨scope, hscope, hfind⟩ := Option.bind_eq_some_iff.1 hr
    rw [h.closure i scope key r hscope hfind decl closure hbody]
    exact h.wellFormed.depth_pos

/-- **In every state of a run** parents were opened before, and functions see open scopes. -/
theorem Machine.OccursIn.anchored {p : Source} {m : Machine} (h : m.OccursIn p) :
    m.scopes.Anchored := h.lexical.anchored

/-- The state is the same with the scope opened as without it, for all that does not use the
names of the scope. -/
def Machine.Admits (X : Scope Object Body) (m : Machine) : Prop :=
  m.Inserted X m.scopes.depth (m.beside X)

/-- Behind the last scope there is nothing to be found. -/
theorem Scopes.bind_scopes_of_le {γ : Type} (s : Scopes Object Body) {i : ScopeId}
    (hi : s.depth ≤ i) (get : Scope Object Body → Option γ) : s.scopes[i]?.bind get = none := by
  rw [List.getElem?_eq_none hi]
  rfl

/-- A scope below the current one is admitted if no function uses its names. -/
theorem Scopes.Anchored.admits {m : Machine} (h : m.scopes.Anchored)
    (hparent : X.parent = some m.scopes.current) (hfunctions : ∀ key, X.functions.find? key = none)
    (hmisses : ∀ i key r, m.scopes.functionAt i key = some r →
      ∀ decl closure, r.body = .declared decl closure → X.Misses decl.variables) :
    m.Admits X := by
  have hdepth : (m.beside X).scopes.depth = m.scopes.depth + 1 := List.length_append
  have hnone : ∀ {γ : Type} {i : ScopeId} (get : Scope Object Body → Option γ),
      m.scopes.depth ≤ i → (m.beside X).scopes.scopes[i + 1]?.bind get = none := fun get hi =>
    Scopes.bind_scopes_of_le _ (hdepth ▸ Nat.succ_le_succ hi) get
  refine ⟨⟨h.wellFormed, h.wellFormed.push hparent h.wellFormed.current, hdepth, Nat.le_refl _,
    ⟨_, h.wellFormed.current, hparent⟩, fun i a hi ha => ?_, .inr ⟨hparent, rfl⟩⟩,
    ⟨List.getElem?_concat_length, fun i hi => List.getElem?_append_left hi, fun i name hi _ => ?_,
      hfunctions, fun i key hi => ⟨Scopes.bind_scopes_of_le _ hi _, hnone _ hi⟩,
      fun i key r hr decl closure hbody => ?_⟩, rfl, rfl⟩
  · rw [Scopes.parentAt, List.getElem?_eq_none hi] at ha
    cases ha
  · rw [Scopes.variableAt, Scopes.variableAt, hnone _ hi, Scopes.bind_scopes_of_le _ hi]
  · exact ⟨h.closure i key r hr decl closure hbody, hmisses i key r hr decl closure hbody⟩

/-- A scope without names can be opened. -/
theorem Scopes.Anchored.admits_empty {m : Machine} (h : m.scopes.Anchored) :
    m.Admits (.empty (some m.scopes.current)) :=
  h.admits rfl (fun _ => rfl) fun _ _ _ _ _ _ _ => Scope.misses_empty _

/-- The scope put in is the last one, and the current one. -/
theorem Machine.Inserted.eq_beside {m m' : Machine} (h : m.Inserted X d m')
    (hdepth : m.scopes.depth = d) (hcurrent : m'.scopes.current = d) : m' = m.beside X := by
  subst hdepth
  have hdepth : m'.scopes.scopes.length = m.scopes.scopes.length + 1 := h.shape.depth
  have hscopes : m'.scopes.scopes = m.scopes.scopes ++ [X] := by
    refine List.ext_getElem? fun i => ?_
    rcases Nat.lt_trichotomy i m.scopes.scopes.length with hlt | rfl | hgt
    · rw [List.getElem?_append_left hlt]
      exact h.content.outer i hlt
    · rw [List.getElem?_concat_length]
      exact h.content.inserted
    · rw [List.getElem?_eq_none (by omega), List.getElem?_eq_none]
      rw [List.length_append]
      exact hgt
  obtain ⟨⟨scopes, current⟩, heap, output⟩ := m'
  obtain rfl : scopes = _ := hscopes
  obtain rfl : current = _ := hcurrent
  obtain rfl : heap = _ := h.heap
  obtain rfl : output = _ := h.output
  rfl

/-- The new scope is closed again. -/
theorem Machine.leave_beside (m : Machine) : (m.beside X).leave m.scopes.frame = m := by
  simp [beside, leave, Scopes.leave, Scopes.frame, Scopes.depth]

/-- Once the scopes from `d` on are closed there is no difference. -/
theorem Machine.Inserted.leave_eq {m m' : Machine} (h : m.Inserted X d m') {frame : Frame}
    (hle : frame.depth ≤ d) : m'.leave frame = m.leave frame := by
  have htake : m'.scopes.scopes.take frame.depth = m.scopes.scopes.take frame.depth := by
    refine List.ext_getElem? fun i => ?_
    rw [List.getElem?_take, List.getElem?_take]
    split
    · rename_i hi
      exact h.content.outer i (Nat.lt_of_lt_of_le hi hle)
    · rfl
  rw [Machine.leave, Machine.leave, Scopes.leave, Scopes.leave, htake, h.heap, h.output]

/-- What the new scope does not hold is there if it was there before. -/
theorem Machine.bind_beside {γ : Type} (m : Machine) {get : Scope Object Body → Option γ}
    (hget : get X = none) (i : ScopeId) :
    (m.beside X).scopes.scopes[i]?.bind get = m.scopes.scopes[i]?.bind get :=
  Scopes.bind_scopes_push m.scopes i hget

namespace Machine.Admits

variable {m : Machine} (hm : m.Admits X)
include hm

/-- A state that admits one more scope is anchored itself. -/
theorem anchored : m.scopes.Anchored :=
  ⟨hm.shape.wellFormed, fun i key r hr decl closure hbody =>
    (hm.content.outside i key r hr decl closure hbody).1⟩

/-- With the new scope the state is anchored as well, for the scope holds no function. -/
theorem anchored_beside : (m.beside X).scopes.Anchored where
  wellFormed := hm.shape.wellFormed'
  closure i key r hr decl closure hbody := by
    rw [Scopes.functionAt, m.bind_beside (hm.content.noFunctions key)] at hr
    rw [hm.shape.depth]
    exact Nat.lt_succ_of_lt (hm.content.outside i key r hr decl closure hbody).1

/-- One more scope in the new one: all that the new scope itself holds is then in its inner
scope. -/
theorem enter : (m.beside X).Inserted X m.scopes.depth ((m.beside X).enter m.scopes.depth) := by
  obtain ⟨p, hp, hparent⟩ := hm.shape.below
  have hdepth := hm.shape.depth
  have hlt : m.scopes.depth < (m.beside X).scopes.depth := hdepth ▸ Nat.lt_succ_self _
  have hnone : ∀ {γ : Type} {i : ScopeId} {get : Scope Object Body → Option γ}, get X = none →
      m.scopes.depth ≤ i → (m.beside X).scopes.scopes[i]?.bind get = none :=
    fun hget hi => (m.bind_beside hget _).trans (Scopes.bind_scopes_of_le _ hi _)
  refine ⟨⟨hm.shape.wellFormed', hm.shape.wellFormed'.enter hlt, Scopes.depth_enter ..,
    Nat.le_of_lt hlt, ⟨p, hp, hparent⟩, fun i a hi ha => ?_, .inl ?_⟩,
    ⟨?_, fun i hi => ?_, fun i name hi hname => ?_, hm.content.noFunctions, fun i key hi => ?_,
      fun i key r hr => ?_⟩, rfl, rfl⟩
  · -- only the new scope is as far out, and its parent sees what the inner one sees
    obtain ⟨scope, hscope, ha⟩ := Option.map_eq_some_iff.1 ha
    have hi' : i < m.scopes.depth + 1 := hdepth ▸ (List.getElem?_eq_some_iff.1 hscope).1
    obtain rfl : i = m.scopes.depth := Nat.le_antisymm (Nat.le_of_lt_succ hi') hi
    obtain rfl : X = scope := Option.some.inj (hm.content.inserted.symm.trans hscope)
    refine ⟨m.scopes.depth, ?_, .inr ⟨ha, rfl⟩⟩
    rw [← hdepth]
    simp [Machine.enter, Scopes.parentAt, Scopes.enter, Scopes.depth, Scope.empty]
  · exact hdepth.trans (ScopeId.moved_of_le (Nat.le_refl m.scopes.depth)).symm
  · exact (Scopes.Kept.scopes_enter _ _ hlt).trans hm.content.inserted
  · exact Scopes.Kept.scopes_enter _ _ (Nat.lt_trans hi hlt)
  · rw [Machine.enter, Scopes.variableAt_enter]
    exact (hnone hname (Nat.le_succ_of_le hi)).trans (hnone hname hi).symm
  · rw [Machine.enter, Scopes.functionAt_enter]
    exact ⟨hnone (hm.content.noFunctions key) hi,
      hnone (hm.content.noFunctions key) (Nat.le_succ_of_le hi)⟩
  · rw [Scopes.functionAt, m.bind_beside (hm.content.noFunctions key)] at hr
    exact hm.content.outside i key r hr

end Machine.Admits

namespace Blind

variable {m : Machine}

/-- **A blind step does the same in the new scope**, which is the last one also afterwards. -/
theorem agree_beside {x : Eval α} (hm : m.Admits X) (hx : Blind X m.scopes.depth false x) :
    Ending.Agree (fun n n' => n' = n.beside X ∧ n.Admits X ∧ n.scopes.frame = m.scopes.frame)
      (x m) (x (m.beside X)) := by
  have hagree := hx m (m.beside X) hm nofun
  have hlast : ∀ {n n' : Machine}, Machine.Stays X m.scopes.depth m (m.beside X) n n' →
      n' = n.beside X ∧ n.Admits X ∧ n.scopes.frame = m.scopes.frame := by
    intro n n' hstays
    have hdepth := hstays.kept.depth
    have heq := hstays.inserted.eq_beside hdepth hstays.kept'.current
    refine ⟨heq, ?_, hstays.kept.frame⟩
    have hinserted := hstays.inserted
    rw [heq, ← hdepth] at hinserted
    exact hinserted
  generalize x m = r, x (m.beside X) = r' at hagree
  cases hagree with
  | ok a hstays => exact .ok a (hlast hstays)
  | error e hstays => exact .error e (hlast hstays)

/-- A blind step has the same outcome in the new scope, and the scope is still there. -/
theorem beside {x : Eval α} (hm : m.Admits X) (hx : Blind X m.scopes.depth false x) :
    x (m.beside X) = onState (·.beside X) (x m) := by
  have hagree := hx.agree_beside hm
  generalize x m = r, x (m.beside X) = r' at hagree
  cases hagree with
  | ok a h => rw [h.1]; rfl
  | error e h => rw [h.1]; rfl

/-- After a blind step the scope could still be opened, at the same place. -/
theorem admits_after {x : Eval α} (hm : m.Admits X) (hx : Blind X m.scopes.depth false x) :
    (after x m).Admits X ∧ (after x m).scopes.frame = m.scopes.frame := by
  have hagree := hx.agree_beside hm
  unfold after
  generalize x m = r, x (m.beside X) = r' at hagree
  cases hagree with
  | ok a h => exact h.2
  | error e h => exact h.2

/-- The step in the new scope, which is closed afterwards. -/
theorem leave_beside {x : Eval α} (hm : m.Admits X) (hx : Blind X m.scopes.depth false x) :
    onState (·.leave m.scopes.frame) (x (m.beside X)) = x m := by
  have hagree := hx.agree_beside hm
  generalize x m = r, x (m.beside X) = r' at hagree
  cases hagree with
  | @ok a n n' h =>
    obtain ⟨rfl, -, hframe⟩ := h
    exact congrArg (EStateM.Result.ok a) (hframe ▸ n.leave_beside)
  | @error e n n' h =>
    obtain ⟨rfl, -, hframe⟩ := h
    exact congrArg (EStateM.Result.error e) (hframe ▸ n.leave_beside)

/-- **What a step does at first can be done outside of its scope.** -/
theorem inScope_bind {x : Eval α} {g : α → Eval β} (hm : m.scopes.Anchored)
    (hx : Blind (.empty (some m.scopes.current)) m.scopes.depth false x) :
    Eval.inScope (x >>= g) m = (do Eval.inScope (g (← x))) m := by
  have hagree := hx.agree_beside hm.admits_empty
  have hscope : Eval.inScope (x >>= g) m = onState (·.leave m.scopes.frame)
      ((x >>= g) (m.beside (.empty (some m.scopes.current)))) := inScopeOf_eq ..
  rw [hscope]
  generalize hr : x m = r, hr' : x (m.beside _) = r' at hagree
  cases hagree with
  | @error e n n' h =>
    obtain ⟨rfl, -, hframe⟩ := h
    rw [bind_eq_error hr', bind_eq_error hr]
    show EStateM.Result.error e ((n.beside _).leave m.scopes.frame) = .error e n
    rw [← hframe, Machine.leave_beside]
  | @ok a n n' h =>
    obtain ⟨rfl, -, hframe⟩ := h
    have hcurrent : n.scopes.current = m.scopes.current := congrArg Frame.previous hframe
    rw [bind_eq hr', bind_eq hr]
    show _ = Eval.inScopeOf n.scopes.current (g a) n
    rw [inScopeOf_eq, hframe, hcurrent]
    rfl

/-- **A step that has the new scope to itself may be given one more.** -/
theorem inScope_beside {x : Eval α} (hm : m.Admits X) (hx : Blind X m.scopes.depth true x) :
    onState (·.leave m.scopes.frame) (Eval.inScope x (m.beside X)) =
      onState (·.leave m.scopes.frame) (x (m.beside X)) := by
  have hagree := hx _ _ hm.enter fun _ => Nat.le_refl _
  have hscope : Eval.inScope x (m.beside X) = onState (·.leave (m.beside X).scopes.frame)
      (x ((m.beside X).enter m.scopes.depth)) := inScopeOf_eq ..
  have hle : m.scopes.frame.depth ≤ (m.beside X).scopes.frame.depth := by
    show m.scopes.depth ≤ (m.beside X).scopes.depth
    rw [hm.shape.depth]
    exact Nat.le_succ _
  rw [hscope]
  generalize x (m.beside X) = r, x ((m.beside X).enter m.scopes.depth) = r' at hagree
  cases hagree with
  | ok a hstays =>
    exact congrArg (EStateM.Result.ok a)
      ((Machine.leave_leave _ hle).trans (hstays.inserted.leave_eq (Nat.le_refl _)))
  | error e hstays =>
    exact congrArg (EStateM.Result.error e)
      ((Machine.leave_leave _ hle).trans (hstays.inserted.leave_eq (Nat.le_refl _)))

/-- Two scopes for one step are as good as one. -/
theorem inScope_inScope {x : Eval α} (hm : m.scopes.Anchored)
    (hx : Blind (.empty (some m.scopes.current)) m.scopes.depth true x) :
    Eval.inScope (Eval.inScope x) m = Eval.inScope x m := by
  show Eval.inScopeOf m.scopes.current _ m = Eval.inScopeOf m.scopes.current x m
  rw [inScopeOf_eq, inScopeOf_eq]
  exact hx.inScope_beside hm.admits_empty

end Blind

end Scriptlet
