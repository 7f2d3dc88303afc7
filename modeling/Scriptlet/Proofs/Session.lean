import Scriptlet.Proofs.Lexical
import Scriptlet.Proofs.Places

/-!
# What is done to scopes

Scopes are entered and left, names are defined in the current scope, and variables get other
values.  A new scope may be below any open one.  Entering it gives a frame, and frames are left
in stack order: to leave one of them is to forget those that were given after it.  A `Session`
is an arena with the frames that can still be left.

| operation | allowed if |
| --- | --- |
| `enter parent` | the scope `parent` is open |
| `leave forgotten` | there is a frame below so many |
| any other | always; it may fail, and then changes nothing |

Positions are used again after scopes are left, and many scopes may be left at once.
Nevertheless every parent is older than its child and everything is stored under its own name
(`Session.Sound`).  So a lookup climbs to the root and ends there, and what it finds bears the
name that was looked up (`Scopes.LooksUp`).
-/

namespace Scriptlet

variable {α β : Type}

/-! ### Names under which things are stored -/

/-- A scope with variables under their names, and functions under their names and numbers of
parameters. -/
structure Scope.Keyed (scope : Scope α β) : Prop where
  vars : ∀ name v, scope.vars.find? name = some v → v.name = name
  functions : ∀ key r, scope.functions.find? key = some r → (r.name, r.arity) = key

namespace Scope.Keyed

variable {scope : Scope α β}

/-- Nothing is stored in an empty scope. -/
theorem empty (parent : Option ScopeId) : (Scope.empty parent : Scope α β).Keyed :=
  ⟨nofun, nofun⟩

/-- A variable is stored under its own name. -/
theorem setVariable (h : scope.Keyed) {name : String} {v : Variable α} (hv : v.name = name) :
    (scope.setVariable name v).Keyed where
  vars name' v' hv' := by
    rw [Scope.setVariable, Table.find?_insert] at hv'
    split at hv'
    · rename_i hname
      cases hv'
      exact hv.trans hname
    · exact h.vars name' v' hv'
  functions := h.functions

/-- A new variable is stored under its own name. -/
theorem addVariable (h : scope.Keyed) (v : Variable α) : (scope.addVariable v).Keyed :=
  h.setVariable rfl

/-- A new function is stored under its name and the number of its parameters. -/
theorem addFunction (h : scope.Keyed) (r : Routine β) : (scope.addFunction r).Keyed where
  vars := h.vars
  functions key r' hr' := by
    rw [Scope.addFunction, Table.find?_insert] at hr'
    split at hr'
    · rename_i hkey
      cases hr'
      exact hkey
    · exact h.functions key r' hr'

end Scope.Keyed

namespace Scopes

variable {s s' : Scopes α β}

/-- In all scopes everything is stored under its own name. -/
def Keyed (s : Scopes α β) : Prop := ∀ scope ∈ s.scopes, scope.Keyed

namespace Keyed

/-- The builtin functions are stored under their names. -/
theorem ofBuiltins (builtins : List (Routine β)) :
    (Scopes.ofBuiltins builtins : Scopes α β).Keyed := by
  have hfold : ∀ (rest : List (Routine β)) (scope : Scope α β), scope.Keyed →
      (rest.foldl Scope.addFunction scope).Keyed := by
    intro rest
    induction rest with
    | nil => exact fun _ h => h
    | cons r rest ih => exact fun scope h => ih _ (h.addFunction r)
  intro scope hscope
  rw [List.mem_singleton.1 hscope]
  exact hfold builtins _ (.empty none)

/-- One scope is changed, and in it everything stays under its own name. -/
theorem modify (h : s.Keyed) (id : ScopeId) {f : Scope α β → Scope α β}
    (hf : ∀ scope : Scope α β, scope.Keyed → (f scope).Keyed) : (s.modify id f).Keyed := by
  intro scope hscope
  obtain ⟨i, hi⟩ := List.mem_iff_getElem?.1 hscope
  rw [scopes_modify] at hi
  split at hi
  · obtain ⟨before, hbefore, rfl⟩ := Option.map_eq_some_iff.1 hi
    exact hf before (h before (List.mem_of_getElem? hbefore))
  · exact h scope (List.mem_of_getElem? hi)

/-- A variable in some scope bears the name that it is stored under. -/
theorem variableAt (h : s.Keyed) {i : ScopeId} {name : String} {v : Variable α}
    (hv : s.variableAt i name = some v) : v.name = name := by
  obtain ⟨scope, hscope, hfind⟩ := Option.bind_eq_some_iff.1 hv
  exact (h scope (List.mem_of_getElem? hscope)).vars name v hfind

/-- A variable that is found bears the name that was looked up. -/
theorem findVariable? (h : s.Keyed) {name : String} {v : Variable α}
    (hv : s.findVariable? name = some v) : v.name = name := by
  obtain ⟨⟨i, v'⟩, hresolve, rfl⟩ := Option.map_eq_some_iff.1 hv
  exact h.variableAt (variableAt_of_resolve? hresolve)

/-- A function that is found has the name and the number of parameters that were looked up. -/
theorem findFunction? (h : s.Keyed) {name : String} {arity : Nat} {r : Routine β}
    (hr : s.findFunction? name arity = some r) : r.name = name ∧ r.arity = arity := by
  obtain ⟨i, hat⟩ := functionAt_of_findFunction? hr
  obtain ⟨scope, hscope, hfind⟩ := Option.bind_eq_some_iff.1 hat
  exact Prod.mk.inj ((h scope (List.mem_of_getElem? hscope)).functions (name, arity) r hfind)

/-- A variable is defined under its own name. -/
theorem defineVariable (h : s.Keyed) {v : Variable α} (hdefine : s.defineVariable v = .ok s') :
    s'.Keyed := by
  rw [Scopes.defineVariable] at hdefine
  split at hdefine
  · cases hdefine
  · cases hdefine
    exact h.modify s.current fun _ hscope => hscope.addVariable v

/-- A function is defined under its own name and number of parameters. -/
theorem defineFunction (h : s.Keyed) {r : Routine β} (hdefine : s.defineFunction r = .ok s') :
    s'.Keyed := by
  rw [Scopes.defineFunction] at hdefine
  split at hdefine
  · cases hdefine
  · cases hdefine
    exact h.modify s.current fun _ hscope => hscope.addFunction r

/-- An assignment keeps the name of the variable. -/
theorem assign (h : s.Keyed) {name : String} {value : α}
    (hassign : s.assign? name value = some s') : s'.Keyed := by
  rw [Scopes.assign?] at hassign
  split at hassign
  · cases hassign
  · rename_i i v hresolve
    cases hassign
    have hname : v.name = name := h.variableAt (variableAt_of_resolve? hresolve)
    exact h.modify i fun _ hscope => hscope.setVariable hname

/-- A new scope is empty. -/
theorem enter (h : s.Keyed) (parent : ScopeId) : (s.enter parent).Keyed := by
  intro scope hscope
  rcases List.mem_append.1 hscope with hold | hnew
  · exact h scope hold
  · rw [List.mem_singleton.1 hnew]
    exact .empty (some parent)

/-- Scopes that are left take what they hold with them. -/
theorem leave (h : s.Keyed) (frame : Frame) : (s.leave frame).Keyed := fun scope hscope =>
  h scope (List.mem_of_mem_take hscope)

end Keyed

/-! ### The way to the root -/

/-- The scopes from one scope outwards.  Each of them is open, and the last has no parent. -/
inductive Climbs (s : Scopes α β) : ScopeId → List ScopeId → Prop where
  | root {id : ScopeId} : s.parentAt id = some none → Climbs s id [id]
  | up {id parent : ScopeId} {path : List ScopeId} :
    s.parentAt id = some (some parent) → Climbs s parent path → Climbs s id (id :: path)

/-- A scope that has a parent, or is known to have none, is open. -/
theorem lt_depth_of_parentAt {id : ScopeId} {parent : Option ScopeId}
    (h : s.parentAt id = some parent) : id < s.depth := by
  obtain ⟨scope, hscope, -⟩ := Option.map_eq_some_iff.1 h
  exact (List.getElem?_eq_some_iff.1 hscope).1

namespace Climbs

variable {id : ScopeId} {path : List ScopeId}

/-- On the way to the root all scopes are open. -/
theorem isOpen (h : s.Climbs id path) : ∀ i ∈ path, i < s.depth := by
  induction h with
  | root hparent => exact List.forall_mem_singleton.2 (lt_depth_of_parentAt hparent)
  | up hparent _ ih => exact List.forall_mem_cons.2 ⟨lt_depth_of_parentAt hparent, ih⟩

/-- **A search goes along the way to the root** and stops at the first scope that has what is
looked for; to allow for more steps makes no difference. -/
theorem search_eq {γ : Type} (h : s.Climbs id path) (get : Scope α β → Option γ) {n : Nat}
    (hn : path.length ≤ n) :
    s.search get n id = path.findSome? fun i => (s.scopes[i]?.bind get).map (Prod.mk i) := by
  induction h generalizing n with
  | @root id hparent =>
    obtain ⟨n, rfl⟩ : ∃ k, n = k + 1 := Nat.exists_eq_add_of_le' hn
    rw [search_succ, hparent, List.findSome?_singleton]
    cases s.scopes[id]?.bind get <;> rfl
  | @up id _ _ hparent _ ih =>
    obtain ⟨n, rfl⟩ : ∃ k, n = k + 1 :=
      Nat.exists_eq_add_of_le' (Nat.le_trans (Nat.le_add_left 1 _) hn)
    rw [search_succ, hparent, List.findSome?_cons]
    cases s.scopes[id]?.bind get with
    | some a => rfl
    | none => exact ih (Nat.le_of_succ_le_succ hn)

end Climbs

namespace WellFormed

/-- **From every open scope there is a way to the root.** -/
theorem exists_climbs (h : s.WellFormed) (id : ScopeId) (hid : id < s.depth) :
    ∃ path, s.Climbs id path ∧ path.length ≤ id + 1 ∧ path.getLast? = some Scopes.root := by
  induction id using Nat.strongRecOn with
  | ind id ih =>
    by_cases hroot : id = Scopes.root
    · subst hroot
      exact ⟨[Scopes.root], .root h.root, Nat.le_refl _, rfl⟩
    · obtain ⟨parent, hlt, hparent⟩ := h.parent id hroot hid
      obtain ⟨path, hclimbs, hlength, hlast⟩ := ih parent hlt (Nat.lt_trans hlt hid)
      refine ⟨id :: path, .up hparent hclimbs, ?_, ?_⟩
      · exact Nat.succ_le_succ (Nat.le_trans hlength hlt)
      · rw [List.getLast?_cons, hlast]
        rfl

/-- At first there is the root, which has no parent. -/
theorem ofBuiltins (builtins : List (Routine β)) :
    (Scopes.ofBuiltins builtins : Scopes α β).WellFormed := by
  have hfold : ∀ (rest : List (Routine β)) (scope : Scope α β),
      (rest.foldl Scope.addFunction scope).parent = scope.parent := by
    intro rest
    induction rest with
    | nil => exact fun _ => rfl
    | cons r rest ih => exact fun scope => ih _
  refine ⟨congrArg some (hfold builtins _), fun i hi hlt => ?_, Nat.zero_lt_one⟩
  exact absurd (Nat.lt_one_iff.1 hlt) hi

/-- To leave scopes down to a frame is safe if the scope that it goes back to stays open. -/
theorem leave (h : s.WellFormed) {frame : Frame} (hprevious : frame.previous < frame.depth)
    (hdepth : frame.depth ≤ s.depth) : (s.leave frame).WellFormed := by
  have hparent : ∀ i < frame.depth, (s.leave frame).parentAt i = s.parentAt i := fun i hi => by
    rw [parentAt, Kept.scopes_leave, if_pos hi, parentAt]
  have hleft : (s.leave frame).depth = frame.depth :=
    List.length_take.trans (Nat.min_eq_left hdepth)
  refine ⟨(hparent _ (Nat.zero_lt_of_lt hprevious)).trans h.root, fun i hi hlt => ?_, ?_⟩
  · rw [hleft] at hlt
    rw [hparent i hlt]
    exact h.parent i hi (Nat.lt_of_lt_of_le hlt hdepth)
  · rw [hleft]
    exact hprevious

end WellFormed

/-- Lookups go along a path.  It leads from the current scope through open scopes to the root,
and has no more steps than there are scopes.  What is found is first on the path and bears the
name that was looked up. -/
structure LooksUp (s : Scopes α β) (path : List ScopeId) : Prop where
  climbs : s.Climbs s.current path
  length : path.length ≤ s.depth
  last : path.getLast? = some root
  isOpen : ∀ i ∈ path, i < s.depth
  finds : ∀ {γ : Type} (get : Scope α β → Option γ) (n : Nat), path.length ≤ n →
    s.search get n s.current = path.findSome? fun i => (s.scopes[i]?.bind get).map (Prod.mk i)
  vars : ∀ name v, s.findVariable? name = some v → v.name = name
  functions : ∀ name arity r, s.findFunction? name arity = some r → r.name = name ∧ r.arity = arity

/-- In a well-formed arena lookups go along a path that ends at the root. -/
theorem WellFormed.exists_looksUp (h : s.WellFormed) (hkeyed : s.Keyed) :
    ∃ path, s.LooksUp path := by
  obtain ⟨path, hclimbs, hlength, hlast⟩ := h.exists_climbs s.current h.current
  exact ⟨path, {
    climbs := hclimbs
    length := Nat.le_trans hlength h.current
    last := hlast
    isOpen := hclimbs.isOpen
    finds := fun get _ hn => hclimbs.search_eq get hn
    vars := fun _ _ => hkeyed.findVariable?
    functions := fun _ _ _ => hkeyed.findFunction? }⟩

/-! ### Sessions -/

/-- What can be done to scopes.  To leave a frame, some frames that were given after it may be
forgotten. -/
inductive Op (α β : Type) where
  | enter (parent : ScopeId)
  | leave (forgotten : Nat)
  | defineVariable (v : Variable α)
  | defineFunction (r : Routine β)
  /-- The value of a variable is replaced.  A variable that was looked up could be changed in
  other ways too, but values are all that programs and requests replace. -/
  | assign (name : String) (value : α)

/-- Scopes, and the frames that can still be left, the last one first. -/
structure Session (α β : Type) where
  scopes : Scopes α β
  frames : List Frame

namespace Session

/-- The root scope alone, holding some functions. -/
def start (builtins : List (Routine β)) : Session α β := ⟨.ofBuiltins builtins, []⟩

/-- Does something.  A definition that fails and an assignment to nothing change nothing. -/
def perform (t : Session α β) : Op α β → Session α β
  | .enter parent => ⟨t.scopes.enter parent, t.scopes.frame :: t.frames⟩
  | .leave forgotten =>
    match t.frames.drop forgotten with
    | [] => t
    | frame :: frames => ⟨t.scopes.leave frame, frames⟩
  | .defineVariable v => { t with scopes := (t.scopes.defineVariable v).toOption.getD t.scopes }
  | .defineFunction r => { t with scopes := (t.scopes.defineFunction r).toOption.getD t.scopes }
  | .assign name value => { t with scopes := (t.scopes.assign? name value).getD t.scopes }

/-- Does some things, one after the other. -/
def performAll (t : Session α β) (ops : List (Op α β)) : Session α β := ops.foldl perform t

/-- Whether something can be done: new scopes are below open ones, and frames are left that are
there. -/
def Allows (t : Session α β) : Op α β → Prop
  | .enter parent => parent < t.scopes.depth
  | .leave forgotten => forgotten < t.frames.length
  | .defineVariable _ | .defineFunction _ | .assign _ _ => True

instance (t : Session α β) : DecidablePred t.Allows
  | .enter parent => inferInstanceAs (Decidable (parent < t.scopes.depth))
  | .leave forgotten => inferInstanceAs (Decidable (forgotten < t.frames.length))
  | .defineVariable _ | .defineFunction _ | .assign _ _ => .isTrue trivial

/-- Whether some things can be done one after the other. -/
def AllowsAll : Session α β → List (Op α β) → Prop
  | _, [] => True
  | t, op :: ops => t.Allows op ∧ (t.perform op).AllowsAll ops

instance decidableAllowsAll : (t : Session α β) → DecidablePred t.AllowsAll
  | _, [] => .isTrue trivial
  | t, op :: ops =>
    have := decidableAllowsAll (t.perform op) ops
    inferInstanceAs (Decidable (t.Allows op ∧ (t.perform op).AllowsAll ops))

/-- A frame can be left if there is one below those that are forgotten. -/
theorem Allows.exists_frame {t : Session α β} {forgotten : Nat} (h : t.Allows (.leave forgotten)) :
    ∃ frame frames, t.frames.drop forgotten = frame :: frames ∧
      t.perform (.leave forgotten) = ⟨t.scopes.leave frame, frames⟩ := by
  have hdrop := List.drop_eq_getElem_cons h
  exact ⟨_, _, hdrop, by rw [perform, hdrop]⟩

/-- What neither enters nor leaves a scope keeps the scopes that are open, and everything under its
own name. -/
theorem perform_cases (t : Session α β) (op : Op α β) :
    (∃ parent, op = .enter parent) ∨ (∃ forgotten, op = .leave forgotten) ∨
      ∃ s, t.perform op = { t with scopes := s } ∧ Kept true t.scopes s ∧
        (t.scopes.Keyed → s.Keyed) := by
  have hnothing : ∃ s, t = { t with scopes := s } ∧ Kept true t.scopes s ∧
      (t.scopes.Keyed → s.Keyed) := ⟨t.scopes, rfl, .refl _, fun h => h⟩
  cases op with
  | enter parent => exact .inl ⟨parent, rfl⟩
  | leave forgotten => exact .inr (.inl ⟨forgotten, rfl⟩)
  | defineVariable v =>
    rw [perform]
    cases hdefine : t.scopes.defineVariable v with
    | ok s => exact .inr (.inr ⟨s, rfl, .defineVariable hdefine, fun h => h.defineVariable hdefine⟩)
    | error e => exact .inr (.inr hnothing)
  | defineFunction r =>
    rw [perform]
    cases hdefine : t.scopes.defineFunction r with
    | ok s => exact .inr (.inr ⟨s, rfl, .defineFunction hdefine, fun h => h.defineFunction hdefine⟩)
    | error e => exact .inr (.inr hnothing)
  | assign name value =>
    rw [perform]
    cases hassign : t.scopes.assign? name value with
    | some s => exact .inr (.inr ⟨s, rfl, (Kept.assign hassign).weaken, fun h => h.assign hassign⟩)
    | none => exact .inr (.inr hnothing)

/-- What is kept in all that is done.  The arena is well formed, and everything is stored under
its own name.  A frame goes back to a scope that will be open, and closes at least what the
frames close that were given after it. -/
structure Sound (t : Session α β) : Prop where
  wellFormed : t.scopes.WellFormed
  keyed : t.scopes.Keyed
  frames : ∀ frame ∈ t.frames, frame.previous < frame.depth ∧ frame.depth ≤ t.scopes.depth
  ordered : t.frames.Pairwise fun later earlier => earlier.depth ≤ later.depth

namespace Sound

variable {t : Session α β}

/-- A session begins with the root alone, and no frame to leave. -/
theorem start (builtins : List (Routine β)) : (Session.start builtins : Session α β).Sound :=
  ⟨.ofBuiltins builtins, .ofBuiltins builtins, nofun, .nil⟩

/-- The frame of a new scope goes back to the current scope, and closes the least of all. -/
theorem enter (h : t.Sound) {parent : ScopeId} (hparent : parent < t.scopes.depth) :
    (t.perform (.enter parent)).Sound where
  wellFormed := h.wellFormed.enter hparent
  keyed := h.keyed.enter parent
  frames := by
    refine List.forall_mem_cons.2 ⟨⟨h.wellFormed.current, ?_⟩, fun frame hframe => ?_⟩
    · rw [perform, depth_enter]
      exact Nat.le_succ _
    · rw [perform, depth_enter]
      exact ⟨(h.frames frame hframe).1, Nat.le_succ_of_le (h.frames frame hframe).2⟩
  ordered := List.pairwise_cons.2 ⟨fun frame hframe => (h.frames frame hframe).2, h.ordered⟩

/-- A frame that is left takes those with it that were given after it. -/
theorem leave (h : t.Sound) {forgotten : Nat} (hleave : t.Allows (.leave forgotten)) :
    (t.perform (.leave forgotten)).Sound := by
  obtain ⟨frame, frames, hdrop, heq⟩ := hleave.exists_frame
  have hframes : ∀ f ∈ frame :: frames, f ∈ t.frames := fun f hf =>
    List.mem_of_mem_drop (hdrop ▸ hf)
  obtain ⟨hprevious, hdepth⟩ := h.frames frame (hframes frame List.mem_cons_self)
  have hleft : (t.scopes.leave frame).depth = frame.depth :=
    List.length_take.trans (Nat.min_eq_left hdepth)
  obtain ⟨hbelow, hordered⟩ := List.pairwise_cons.1 (hdrop ▸ h.ordered.drop)
  rw [heq]
  refine ⟨h.wellFormed.leave hprevious hdepth, h.keyed.leave frame, fun f hf => ?_, hordered⟩
  rw [hleft]
  exact ⟨(h.frames f (hframes f (List.mem_cons_of_mem frame hf))).1, hbelow f hf⟩

/-- No scope is opened or closed. -/
theorem of_kept (h : t.Sound) {s : Scopes α β} (hkept : Kept true t.scopes s) (hkeyed : s.Keyed) :
    Sound { t with scopes := s } where
  wellFormed := h.wellFormed.kept hkept
  keyed := hkeyed
  frames frame hframe := by
    rw [hkept.depth]
    exact h.frames frame hframe
  ordered := h.ordered

/-- **Whatever is done keeps the arena well formed.** -/
theorem perform (h : t.Sound) {op : Op α β} (hop : t.Allows op) : (t.perform op).Sound := by
  rcases t.perform_cases op with ⟨parent, rfl⟩ | ⟨forgotten, rfl⟩ | ⟨s, heq, hkept, hkeyed⟩
  · exact h.enter hop
  · exact h.leave hop
  · rw [heq]
    exact h.of_kept hkept (hkeyed h.keyed)

/-- Whatever is done, one thing after the other, keeps a session sound. -/
theorem performAll {ops : List (Op α β)} (h : t.Sound) (hops : t.AllowsAll ops) :
    (t.performAll ops).Sound := by
  induction ops generalizing t with
  | nil => exact h
  | cons op ops ih => exact ih (h.perform hops.1) hops.2

end Sound
end Session
end Scopes
end Scriptlet
