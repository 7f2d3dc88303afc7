import Scriptlet.Proofs.Lexical

/-!
# Calls and the scopes of their callers

While a function runs, the scopes of its callers stay open, and the scopes that the
function opens come after them.  Here the scopes of the callers are put in between the
root and the rest (`Scopes.withCallers`), which moves all other scopes but the root.

A run does not notice: every part of a program does the same with the scopes put in as
without them (`movesAt`), for functions see the root, and names are found through parents.
So a call has the outcome that it has with the root alone.
-/

namespace Scriptlet

/-- Where a scope is after `d` scopes were put in behind the root. -/
def ScopeId.past (d i : Nat) : Nat := if i = 0 then 0 else i + d

/-- Every scope but the root moves by the number of scopes put in. -/
theorem ScopeId.past_of_pos (d : Nat) {i : Nat} (hi : 0 < i) : ScopeId.past d i = i + d :=
  if_neg (Nat.ne_of_gt hi)

/-- Different scopes are moved to different positions. -/
theorem ScopeId.past_inj {d i j : Nat} : ScopeId.past d i = ScopeId.past d j ↔ i = j := by
  unfold ScopeId.past
  split <;> split <;> omega

/-- A scope after scopes were put in behind the root. -/
def Scope.past {α β : Type} (d : Nat) (scope : Scope α β) : Scope α β :=
  { scope with parent := scope.parent.map (ScopeId.past d) }

/-- The root has no parent, so that moving parents leaves it as it is. -/
theorem Scope.past_eq {α β : Type} (d : Nat) {scope : Scope α β} (h : scope.parent = none) :
    scope.past d = scope := by
  rw [past, h, Option.map_none, ← h]

namespace Scopes

variable {α β : Type} (callers : List (Scope α β)) {s : Scopes α β}

/-- The scopes of callers are put in behind the root. -/
def withCallers (s : Scopes α β) : Scopes α β :=
  ⟨(s.scopes.take 1).map (·.past callers.length) ++ (callers ++
    (s.scopes.drop 1).map (·.past callers.length)), ScopeId.past callers.length s.current⟩

/-- There are as many scopes more as were put in. -/
theorem depth_withCallers (hs : 0 < s.depth) :
    (s.withCallers callers).depth = s.depth + callers.length := by
  obtain ⟨_ | ⟨first, rest⟩, current⟩ := s
  · cases hs
  · simp only [withCallers, depth, List.take_one, List.head?_cons, Option.toList_some,
      List.map_cons, List.map_nil, List.drop_one, List.tail_cons, List.length_append,
      List.length_cons, List.length_nil, List.length_map]
    omega

/-- A scope is found where it was moved to, with its parent moved as well. -/
theorem scopes_withCallers (hs : 0 < s.depth) (i : ScopeId) :
    (s.withCallers callers).scopes[ScopeId.past callers.length i]? =
      s.scopes[i]?.map (·.past callers.length) := by
  obtain ⟨_ | ⟨first, rest⟩, current⟩ := s
  · cases hs
  cases i with
  | zero => rfl
  | succ i =>
    rw [ScopeId.past_of_pos _ (Nat.succ_pos i),
      show i + 1 + callers.length = callers.length + i + 1 by omega]
    show (callers ++ rest.map _)[callers.length + i]? = rest[i]?.map _
    rw [List.getElem?_append_right (Nat.le_add_right ..), Nat.add_sub_cancel_left,
      List.getElem?_map]

/-- Behind the root come the scopes of the callers. -/
theorem scopes_withCallers_callers (hs : 0 < s.depth) {i : Nat} (hi : i < callers.length) :
    (s.withCallers callers).scopes[i + 1]? = callers[i]? := by
  obtain ⟨_ | ⟨first, rest⟩, current⟩ := s
  · cases hs
  · show (callers ++ rest.map _)[i]? = callers[i]?
    exact List.getElem?_append_left hi

/-- A position holds the root, a scope of a caller, or a scope that was moved. -/
theorem position_cases (d j : Nat) :
    (∃ i, j = ScopeId.past d i) ∨ ∃ i < d, j = i + 1 := by
  rcases Nat.eq_zero_or_pos j with rfl | hj
  · exact .inl ⟨0, rfl⟩
  rcases Nat.lt_or_ge d j with hd | hd
  · exact .inl ⟨j - d, by rw [ScopeId.past_of_pos d (by omega)]; omega⟩
  · exact .inr ⟨j - 1, by omega, by omega⟩

/-- Scopes are known by the current one, those that were moved and those that were put in. -/
theorem withCallers_ext {s' : Scopes α β} (hs : 0 < s.depth)
    (hcurrent : s'.current = ScopeId.past callers.length s.current)
    (hmoved : ∀ i, s'.scopes[ScopeId.past callers.length i]? =
      s.scopes[i]?.map (·.past callers.length))
    (hcallers : ∀ i < callers.length, s'.scopes[i + 1]? = callers[i]?) :
    s' = s.withCallers callers := by
  obtain ⟨scopes, current⟩ := s'
  refine Scopes.mk.injEq .. ▸ ⟨List.ext_getElem? fun j => ?_, hcurrent⟩
  rcases position_cases callers.length j with ⟨i, rfl⟩ | ⟨i, hi, rfl⟩
  · exact (hmoved i).trans (scopes_withCallers callers hs i).symm
  · exact (hcallers i hi).trans (scopes_withCallers_callers callers hs hi).symm

/-- A scope is changed before or after others are put in, if the change does not look at parents. -/
theorem modify_withCallers (hs : 0 < s.depth) (id : ScopeId) {f : Scope α β → Scope α β}
    (hf : ∀ d scope, f (scope.past d) = (f scope).past d) :
    (s.withCallers callers).modify (ScopeId.past callers.length id) f =
      (s.modify id f).withCallers callers := by
  have hs' : 0 < (s.modify id f).depth := by simpa [modify, depth] using hs
  refine withCallers_ext callers hs' rfl (fun i => ?_) fun i hi => ?_
  · rw [modify, modify, List.getElem?_modify, scopes_withCallers callers hs, List.getElem?_modify]
    simp only [ScopeId.past_inj]
    cases s.scopes[i]? with
    | none => rfl
    | some scope => by_cases hi : id = i <;> simp [hi, hf]
  · have hne : ScopeId.past callers.length id ≠ i + 1 := by
      unfold ScopeId.past
      split <;> omega
    rw [modify, List.getElem?_modify, scopes_withCallers_callers callers hs hi]
    simp [hne]

/-- A scope is opened before or after others are put in. -/
theorem enter_withCallers (hs : 0 < s.depth) (parent : ScopeId) :
    (s.withCallers callers).enter (ScopeId.past callers.length parent) =
      (s.enter parent).withCallers callers := by
  obtain ⟨_ | ⟨first, rest⟩, current⟩ := s
  · cases hs
  have hcurrent : (Scopes.mk (first :: rest) current).depth = rest.length + 1 := rfl
  simp only [enter, depth_withCallers callers hs, hcurrent]
  simp only [withCallers, ScopeId.past_of_pos _ (Nat.succ_pos _)]
  simp [Scope.past, Scope.empty]

/-- Scopes are closed before or after others are put in. -/
theorem leave_withCallers (frame : Frame) (hframe : 0 < frame.depth) (s : Scopes α β) :
    (s.withCallers callers).leave
        ⟨ScopeId.past callers.length frame.previous, frame.depth + callers.length⟩ =
      (s.leave frame).withCallers callers := by
  obtain ⟨previous, _ | depth⟩ := frame
  · cases hframe
  obtain ⟨_ | ⟨first, rest⟩, current⟩ := s
  · simp [leave, withCallers, List.take_of_length_le (Nat.le_add_left callers.length (depth + 1))]
  · simp [leave, withCallers, show depth + 1 + callers.length = callers.length + depth + 1 by omega,
      List.take_append, List.take_of_length_le (Nat.le_add_right callers.length depth)]

/-- With the root alone, the scopes of the callers come after it. -/
theorem scopes_withCallers_root (hdepth : s.depth = 1) (hroot : s.parentAt root = some none) :
    (s.withCallers callers).scopes = s.scopes ++ callers := by
  obtain ⟨scopes, current⟩ := s
  obtain ⟨first, rfl⟩ := List.length_eq_one_iff.1 hdepth
  have hfirst : first.past callers.length = first := Scope.past_eq _ (Option.some.inj hroot)
  simp [withCallers, hfirst]

/-! ### Names -/

/-- A search goes through the scopes that were moved, and never through those that were put in. -/
theorem search_withCallers {γ : Type} {get : Scope α β → Option γ}
    (hget : ∀ d scope, get (scope.past d) = get scope) (hs : 0 < s.depth) (n : Nat) :
    ∀ id, (s.withCallers callers).search get n (ScopeId.past callers.length id) =
      (s.search get n id).map fun found => (ScopeId.past callers.length found.1, found.2) := by
  induction n with
  | zero => exact fun _ => rfl
  | succ n ih =>
    intro id
    rw [search, search, scopes_withCallers callers hs]
    cases s.scopes[id]? with
    | none => rfl
    | some scope =>
      simp only [Option.map_some, hget]
      cases get scope with
      | some found => rfl
      | none =>
        simp only [Scope.past]
        cases scope.parent with
        | none => rfl
        | some parent => exact ih parent

/-- A search that may visit more scopes than there are on the way finds the same. -/
theorem WellFormed.search_eq {γ : Type} (h : s.WellFormed) (get : Scope α β → Option γ) {n : Nat} :
    ∀ {id n' : Nat}, id < n → id < n' → s.search get n id = s.search get n' id := by
  induction n with
  | zero =>
    intro id n' hn
    omega
  | succ n ih =>
    intro id n' hn hn'
    obtain ⟨n', rfl⟩ : ∃ k, n' = k + 1 := ⟨n' - 1, by omega⟩
    rw [search, search]
    cases hscope : s.scopes[id]? with
    | none => rfl
    | some scope =>
      cases hparent : scope.parent with
      | none => simp only [hparent]
      | some parent =>
        have hlt := h.parent_lt hscope hparent
        have hrest : s.search get n parent = s.search get n' parent :=
          ih (Nat.lt_of_lt_of_le hlt (Nat.lt_succ_iff.1 hn))
            (Nat.lt_of_lt_of_le hlt (Nat.lt_succ_iff.1 hn'))
        simp only [hparent, hrest]

/-- A lookup finds the same at the place that it was moved to. -/
theorem WellFormed.resolve?_withCallers {γ : Type} (h : s.WellFormed) {get : Scope α β → Option γ}
    (hget : ∀ d scope, get (scope.past d) = get scope) :
    (s.withCallers callers).resolve? get =
      (s.resolve? get).map fun found => (ScopeId.past callers.length found.1, found.2) := by
  have hdepth := depth_withCallers callers h.depth_pos
  rw [resolve?, resolve?, hdepth,
    h.search_eq get h.current (Nat.lt_add_right callers.length h.current)]
  exact search_withCallers callers hget h.depth_pos _ _

/-- Variables are found as without the scopes of the callers. -/
theorem WellFormed.findVariable?_withCallers (h : s.WellFormed) (name : String) :
    (s.withCallers callers).findVariable? name = s.findVariable? name := by
  rw [findVariable?, h.resolve?_withCallers callers fun _ _ => rfl, findVariable?, Option.map_map]
  rfl

/-- Functions are found as without the scopes of the callers. -/
theorem WellFormed.findFunction?_withCallers (h : s.WellFormed) (name : String) (arity : Nat) :
    (s.withCallers callers).findFunction? name arity = s.findFunction? name arity := by
  rw [findFunction?, h.resolve?_withCallers callers fun _ _ => rfl, findFunction?, Option.map_map]
  rfl

/-- A variable is defined in the current scope, wherever that was moved to. -/
theorem defineVariable_withCallers (hs : 0 < s.depth) (v : Variable α) :
    (s.withCallers callers).defineVariable v =
      (s.defineVariable v).map (·.withCallers callers) := by
  have hscope := scopes_withCallers callers hs s.current
  have hmodify := modify_withCallers callers hs s.current (f := (·.addVariable v)) fun _ _ => rfl
  have hcontains : ((s.withCallers callers).scopes[(s.withCallers callers).current]?).any
      (·.vars.contains v.name) = (s.scopes[s.current]?).any (·.vars.contains v.name) := by
    show ((s.withCallers callers).scopes[ScopeId.past callers.length s.current]?).any _ = _
    rw [hscope]
    cases s.scopes[s.current]? <;> rfl
  rw [defineVariable, defineVariable, hcontains]
  split
  · rfl
  · exact congrArg Except.ok hmodify

/-- A variable gets its value in the scope that holds it, wherever that was moved to. -/
theorem WellFormed.assign?_withCallers (h : s.WellFormed) (name : String) (value : α) :
    (s.withCallers callers).assign? name value =
      (s.assign? name value).map (·.withCallers callers) := by
  rw [assign?, assign?, h.resolve?_withCallers callers fun _ _ => rfl]
  cases s.resolve? fun scope => scope.vars.find? name with
  | none => rfl
  | some found => exact congrArg some (modify_withCallers callers h.depth_pos _ fun _ _ => rfl)

end Scopes

/-! ### Steps -/

/-- The scopes of callers are put in behind the root. -/
def Machine.withCallers (callers : List (Scope Object Body)) (m : Machine) : Machine :=
  { m with scopes := m.scopes.withCallers callers }

/-- A step does the same with the scopes of callers put in as without them. -/
def Moves {α : Type} (callers : List (Scope Object Body)) (x : Eval α) : Prop :=
  ∀ m, m.scopes.Lexical → x (m.withCallers callers) = onState (Machine.withCallers callers) (x m)

namespace Moves

variable {α β : Type} {callers : List (Scope Object Body)}

/-- A step that knows nothing of scopes does the same whatever scopes there are. -/
theorem of_scopeless {x : Eval α} (h : x.Scopeless) : Moves callers x := by
  intro m _
  have hsame := h m m.scopes
  rw [show m.withCallers callers = { m with scopes := m.scopes.withCallers callers } from rfl, h]
  cases hx : x m with
  | ok a n =>
    rw [hx] at hsame
    obtain ⟨-, hn⟩ := EStateM.Result.ok.inj hsame
    rw [hn]
    rfl
  | error e n =>
    rw [hx] at hsame
    obtain ⟨-, hn⟩ := EStateM.Result.error.inj hsame
    rw [hn]
    rfl

/-- Between two steps the scopes must be those of a run. -/
theorem bind {declares : Bool} {x : Eval α} {f : α → Eval β}
    (hsteps : Regime.lexical.Steps declares x) (hx : Moves callers x)
    (hf : ∀ m a m', m.scopes.Lexical → x m = .ok a m' → Moves callers (f a)) :
    Moves callers (x >>= f) := by
  intro m hm
  obtain ⟨hholds, -⟩ := hsteps m hm
  show EStateM.bind x f (m.withCallers callers) =
    onState (Machine.withCallers callers) (EStateM.bind x f m)
  rw [EStateM.bind, EStateM.bind, hx m hm]
  cases hxm : x m with
  | ok a m' =>
    rw [after_eq hxm] at hholds
    exact hf m a m' hm hxm m' hholds
  | error e m' => rfl

/-- A variable is found through parents, which were moved along. -/
theorem lookupVariable (name : String) : Moves callers (Eval.lookupVariable name) := by
  intro m hm
  unfold Eval.lookupVariable
  rw [Machine.withCallers, hm.wellFormed.findVariable?_withCallers callers name]
  cases m.scopes.findVariable? name <;> rfl

/-- A function is found through parents, which were moved along. -/
theorem lookupFunction (name : String) (arity : Nat) :
    Moves callers (Eval.lookupFunction name arity) := by
  intro m hm
  unfold Eval.lookupFunction
  rw [Machine.withCallers, hm.wellFormed.findFunction?_withCallers callers name arity]
  cases m.scopes.findFunction? name arity <;> rfl

/-- A variable is declared in the scope that the current one was moved to. -/
theorem defineVariable (v : Variable Object) : Moves callers (Eval.defineVariable v) := by
  intro m hm
  unfold Eval.defineVariable
  rw [Machine.withCallers,
    Scopes.defineVariable_withCallers callers hm.wellFormed.depth_pos v]
  cases m.scopes.defineVariable v <;> rfl

/-- The variable that is found gets the value, in the scope that its own was moved to. -/
theorem assignVariable (name : String) (value : Object) :
    Moves callers (Eval.assignVariable name value) := by
  intro m hm
  rw [Eval.assignVariable_eq, Eval.assignVariable_eq]
  simp only [Machine.withCallers, hm.wellFormed.findVariable?_withCallers callers name,
    hm.wellFormed.assign?_withCallers callers name value]
  cases m.scopes.findVariable? name with
  | none => rfl
  | some v =>
    cases hmutable : v.mutable with
    | false => simp [hmutable, onState, Machine.withCallers]
    | true => cases m.scopes.assign? name value <;> simp [hmutable, onState, Machine.withCallers]

/-- Below a parent that is moved, a new scope is opened and closed. -/
theorem inScopeOf {x : Eval α} {m : Machine} (hm : m.scopes.Lexical) (parent : ScopeId)
    (hparent : parent < m.scopes.depth) (hx : Moves callers x) :
    Eval.inScopeOf (ScopeId.past callers.length parent) x (m.withCallers callers) =
      onState (Machine.withCallers callers) (Eval.inScopeOf parent x m) := by
  have hpos := hm.wellFormed.depth_pos
  have henter := hx (m.enter parent) (hm.enter hparent)
  have hframe : (m.scopes.withCallers callers).frame =
      ⟨ScopeId.past callers.length m.scopes.current, m.scopes.depth + callers.length⟩ := by
    rw [Scopes.frame, Scopes.depth_withCallers callers hpos]
    rfl
  have hleave := fun s => Scopes.leave_withCallers callers m.scopes.frame hpos s
  unfold Eval.inScopeOf
  simp only [Machine.withCallers, Scopes.enter_withCallers callers hpos, hframe]
  simp only [Machine.withCallers, Machine.enter] at henter
  rw [henter]
  cases x { m with scopes := m.scopes.enter parent } with
  | ok a m' =>
    exact congrArg (fun s => EStateM.Result.ok a { m' with scopes := s }) (hleave m'.scopes)
  | error e m' =>
    exact congrArg (fun s => EStateM.Result.error e { m' with scopes := s }) (hleave m'.scopes)

/-- The scope below the current one is opened and closed. -/
theorem inScope {x : Eval α} (hx : Moves callers x) : Moves callers (Eval.inScope x) :=
  fun m hm => inScopeOf hm m.scopes.current hm.wellFormed.current hx

/-- Steps that are put together do the same with the scopes of callers put in, if what they are
made of does. -/
theorem relying : Regime.lexical.Relying (fun _ _ => True) (Moves callers) where
  bind := bind
  reads f _ := .of_scopeless (Eval.reads_scopeless f)
  outOfFuel _ _ := rfl
  lookupVariable := lookupVariable
  assignVariable := assignVariable
  defineVariable := defineVariable
  allocList _ _ _ := rfl
  write _ _ _ _ _ := rfl
  printLine o := .of_scopeless (Eval.printLine_scopeless o)
  callNative name run arguments := .of_scopeless (Eval.callNative_scopeless name run arguments)
  lookupFunction := lookupFunction
  callable _ _ := trivial
  mismatch _ _ _ _ := rfl
  inScope := inScope
  inScopeOf {_ _ r decl closure} hr hbody hx m hm := by
    obtain rfl := hr decl closure hbody
    exact inScopeOf hm Scopes.root hm.wellFormed.depth_pos hx

end Moves

/-- **Every part of a program does the same with the scopes of callers put in.** -/
theorem movesAt (callers : List (Scope Object Body)) (fuel : Nat) :
    (Regime.lexical.relying (fun _ _ => True) (Moves callers)).RelAt fuel fuel :=
  Moves.relying.relAt Regime.lexical_lawful fuel

/-! ### Calls -/

namespace Machine

/-- The state with the root alone. -/
def alone (m : Machine) : Machine := { m with scopes := ⟨m.scopes.scopes.take 1, Scopes.root⟩ }

/-- The scopes behind the root. -/
def callers (m : Machine) : List (Scope Object Body) := m.scopes.scopes.drop 1

/-- The state with another current scope. -/
def backTo (id : ScopeId) (m : Machine) : Machine :=
  { m with scopes := { m.scopes with current := id } }

/-- A state is the root alone with the scopes of the callers put in, seen from the current scope. -/
theorem alone_withCallers {m : Machine} (h : m.scopes.WellFormed) :
    (m.alone.withCallers m.callers).backTo m.scopes.current = m := by
  obtain ⟨⟨_ | ⟨first, rest⟩, current⟩, heap, output⟩ := m
  · cases h.depth_pos
  have hfirst : first.past rest.length = first := Scope.past_eq _ (Option.some.inj h.root)
  simp [alone, callers, withCallers, backTo, Scopes.withCallers, hfirst]

/-- The root alone is one scope. -/
theorem depth_alone {m : Machine} (h : m.scopes.WellFormed) : m.alone.scopes.depth = 1 := by
  have hpos := h.depth_pos
  simp only [Scopes.depth, alone, List.length_take] at hpos ⊢
  omega

/-- The root alone has the functions of the root, which see the root. -/
theorem alone_lexical {m : Machine} (h : m.scopes.Lexical) : m.alone.scopes.Lexical := by
  have hdepth := depth_alone h.wellFormed
  have hscopes : ∀ (i : ScopeId) scope, m.alone.scopes.scopes[i]? = some scope →
      i = Scopes.root ∧ m.scopes.scopes[i]? = some scope := by
    intro i scope hscope
    have hlt := (List.getElem?_eq_some_iff.1 hscope).1
    obtain rfl : i = Scopes.root := Nat.lt_one_iff.1 (Nat.lt_of_lt_of_eq hlt hdepth)
    exact ⟨rfl, by simpa [alone, List.getElem?_take, Scopes.root] using hscope⟩
  refine ⟨⟨?_, fun i hi hlt => ?_, ?_⟩, fun i scope hscope hi => ?_, fun i scope key r hscope => ?_⟩
  · have hroot := h.wellFormed.root
    simpa [Scopes.parentAt, alone, List.getElem?_take, Scopes.root] using hroot
  · exact absurd (Nat.lt_one_iff.1 (Nat.lt_of_lt_of_eq hlt hdepth)) hi
  · rw [hdepth]
    exact Nat.zero_lt_one
  · exact absurd (hscopes i scope hscope).1 hi
  · exact h.closure i scope key r (hscopes i scope hscope).2

end Machine

/-- States that agree in the root, the lists and the output are the same with the root alone. -/
theorem Machine.alone_eq {m₁ m₂ : Machine}
    (hroot : m₁.scopes.scopes[Scopes.root]? = m₂.scopes.scopes[Scopes.root]?)
    (hheap : m₁.heap = m₂.heap) (houtput : m₁.output = m₂.output) : m₁.alone = m₂.alone := by
  have htake : m₁.scopes.scopes.take 1 = m₂.scopes.scopes.take 1 := by
    rw [List.take_one, List.take_one, List.head?_eq_getElem?, List.head?_eq_getElem?]
    exact congrArg Option.toList hroot
  rw [alone, alone, htake, hheap, houtput]

/-- A step in a scope of its own goes back to the current scope and does not look at it. -/
theorem inScopeOf_backTo {α : Type} (parent : ScopeId) (x : Eval α) (m : Machine) (id : ScopeId) :
    Eval.inScopeOf parent x (m.backTo id) =
      onState (Machine.backTo id) (Eval.inScopeOf parent x m) := by
  rw [inScopeOf_eq, inScopeOf_eq]
  show onState (·.leave ⟨id, m.scopes.depth⟩) (x (m.enter parent)) = _
  cases x (m.enter parent) <;> rfl

/-- A call does not look at the current scope: its body runs below the scope of the function. -/
theorem call_backTo {r : Routine Body} {decl : FunctionDecl} {closure : ScopeId}
    (hbody : r.body = .declared decl closure) (fuel : Nat) (arguments : List Object) (m : Machine)
    (id : ScopeId) :
    Eval.call fuel r arguments (m.backTo id) =
      onState (Machine.backTo id) (Eval.call fuel r arguments m) := by
  cases fuel with
  | zero => rfl
  | succ fuel =>
    rw [Eval.call, hbody]
    by_cases harity : arguments.length = r.arity
    · rw [if_pos harity]
      exact inScopeOf_backTo closure _ m id
    · rw [if_neg harity]
      rfl

/-- **A call has the outcome that it has with the root alone**, and the scopes behind the
root are put back. -/
theorem call_alone {m : Machine} (hm : m.scopes.Lexical) {r : Routine Body} {decl : FunctionDecl}
    (hbody : r.body = .declared decl Scopes.root) (fuel : Nat) (arguments : List Object) :
    Eval.call fuel r arguments m =
      onState (fun m' => (m'.withCallers m.callers).backTo m.scopes.current)
        (Eval.call fuel r arguments m.alone) := by
  have hr : r.Lexical := fun decl' closure h => by
    rw [hbody] at h
    cases h
    rfl
  obtain ⟨-, hmoves⟩ := (movesAt m.callers fuel).call r arguments ⟨hr, trivial⟩
  calc Eval.call fuel r arguments m
      = Eval.call fuel r arguments ((m.alone.withCallers m.callers).backTo m.scopes.current) := by
        rw [Machine.alone_withCallers hm.wellFormed]
    _ = onState (Machine.backTo m.scopes.current)
          (onState (Machine.withCallers m.callers) (Eval.call fuel r arguments m.alone)) := by
        rw [call_backTo hbody, hmoves m.alone (Machine.alone_lexical hm)]
    _ = _ := by cases Eval.call fuel r arguments m.alone <;> rfl

section AfterCall

variable {m : Machine} (hm : m.scopes.Lexical) {r : Routine Body} {decl : FunctionDecl}
  (hbody : r.body = .declared decl Scopes.root) (fuel : Nat) (arguments : List Object)
include hm

/-- After a call with the root alone, the root is alone again. -/
theorem depth_after_call_alone :
    (after (Eval.call fuel r arguments) m.alone).scopes.depth = 1 :=
  (call_kept fuel m.alone r arguments).depth.trans (Machine.depth_alone hm.wellFormed)

include hbody

/-- After a call the scopes of the callers follow the root, and the current scope is the
caller's. -/
theorem after_call :
    after (Eval.call fuel r arguments) m =
      { after (Eval.call fuel r arguments) m.alone with
        scopes := ⟨(after (Eval.call fuel r arguments) m.alone).scopes.scopes ++ m.callers,
          m.scopes.current⟩ } := by
  have hkept := call_kept fuel m.alone r arguments
  have hroot := (hkept.parent Scopes.root).trans (Machine.alone_lexical hm).wellFormed.root
  rw [after_of_onState (call_alone hm hbody fuel arguments)]
  simp only [Machine.backTo, Machine.withCallers,
    Scopes.scopes_withCallers_root _ (depth_after_call_alone hm fuel arguments) hroot]

/-- A call leaves the root as it does with the root alone. -/
theorem root_after_call :
    (after (Eval.call fuel r arguments) m).scopes.scopes[Scopes.root]? =
      (after (Eval.call fuel r arguments) m.alone).scopes.scopes[Scopes.root]? := by
  have hdepth := depth_after_call_alone (r := r) hm fuel arguments
  rw [after_call hm hbody]
  exact List.getElem?_append_left (Nat.lt_of_lt_of_eq Nat.zero_lt_one hdepth.symm)

/-- A call leaves the scopes behind the root as they were. -/
theorem callers_after_call {i : ScopeId} (hi : i ≠ Scopes.root) :
    (after (Eval.call fuel r arguments) m).scopes.scopes[i]? = m.scopes.scopes[i]? := by
  have hdepth := depth_after_call_alone (r := r) hm fuel arguments
  have hpos : 1 ≤ i := Nat.one_le_iff_ne_zero.2 hi
  rw [after_call hm hbody]
  show (_ ++ m.callers)[i]? = _
  rw [List.getElem?_append_right (Nat.le_trans (Nat.le_of_eq hdepth) hpos), Machine.callers,
    List.getElem?_drop, show List.length _ = 1 from hdepth, Nat.add_sub_cancel' hpos]

end AfterCall

/-- **Calls are lexically scoped.**  Two states that occur in runs of one program agree in the
root, the lists and the output, and in nothing else.  Then a declared function that is found
in one of them is found in the other, and a call has the same outcome in both: the same value
or error, the same output, lists and root.  The scopes behind the root, those of the caller,
are left as they were. -/
theorem call_sees_root_only {p : Source} {m₁ m₂ : Machine} (h₁ : m₁.OccursIn p)
    (h₂ : m₂.OccursIn p) (hroot : m₁.scopes.scopes[Scopes.root]? = m₂.scopes.scopes[Scopes.root]?)
    (hheap : m₁.heap = m₂.heap) (houtput : m₁.output = m₂.output) (name : String) (arity : Nat)
    {r : Routine Body} {decl : FunctionDecl} {closure : ScopeId}
    (hr : m₁.scopes.findFunction? name arity = some r) (hbody : r.body = .declared decl closure)
    (fuel : Nat) (arguments : List Object) :
    let call := Eval.call fuel r arguments
    m₂.scopes.findFunction? name arity = some r ∧
      outcome call m₁ = outcome call m₂ ∧
      (after call m₁).output = (after call m₂).output ∧
      (after call m₁).heap = (after call m₂).heap ∧
      (after call m₁).scopes.scopes[Scopes.root]? = (after call m₂).scopes.scopes[Scopes.root]? ∧
      ∀ m, m = m₁ ∨ m = m₂ → (after call m).scopes.current = m.scopes.current ∧
        ∀ i, i ≠ Scopes.root → (after call m).scopes.scopes[i]? = m.scopes.scopes[i]? := by
  intro call
  have hl₁ := h₁.lexical
  have hl₂ := h₂.lexical
  obtain rfl : closure = Scopes.root := hl₁.findFunction? hr decl closure hbody
  have halone := Machine.alone_eq hroot hheap houtput
  have hfound : m₂.scopes.findFunction? name arity = some r := by
    rw [hl₂.findFunction?_eq, ← hroot, ← hl₁.findFunction?_eq]
    exact hr
  have houtcome : outcome call m₁ = outcome call m₂ := by
    rw [outcome_of_onState (call_alone hl₁ hbody fuel arguments), halone,
      ← outcome_of_onState (call_alone hl₂ hbody fuel arguments)]
  refine ⟨hfound, houtcome, ?_, ?_, ?_, ?_⟩
  · rw [after_call hl₁ hbody, after_call hl₂ hbody, halone]
  · rw [after_call hl₁ hbody, after_call hl₂ hbody, halone]
  · rw [root_after_call hl₁ hbody, root_after_call hl₂ hbody, halone]
  · rintro m (rfl | rfl)
    · exact ⟨by rw [after_call hl₁ hbody], fun i => callers_after_call hl₁ hbody fuel arguments⟩
    · exact ⟨by rw [after_call hl₂ hbody], fun i => callers_after_call hl₂ hbody fuel arguments⟩

/-- `main` declares `x`, and a function that reads `x` fails as it does after `main`. -/
theorem call_sees_root_only_local_of_main :
    ∃ (p : Source) (m₁ m₂ : Machine) (r : Routine Body), m₁.OccursIn p ∧ m₂.OccursIn p ∧
      m₁.scopes.findFunction? "peek" 0 = some r ∧
      ((m₁.scopes.findVariable? "x").isSome ∧ (m₂.scopes.findVariable? "x").isSome = false) ∧
      outcome (Eval.call 4 r []) m₁ = outcome (Eval.call 4 r []) m₂ ∧
      outcome (Eval.call 4 r []) m₂ = .error (.error (.undefinedVariable "x")) := by
  have hmain : Machine.OccursIn ⟨[], [⟨0, "peek", [], [], none, [.returnWith (.access 1 "x")]⟩,
      ⟨2, "main", [], [], none, [.declaration 3 "x" none none]⟩]⟩ _ :=
    ⟨9, none, .inr ⟨_, .head _, rfl⟩⟩
  have hend : Machine.OccursIn ⟨[], [⟨0, "peek", [], [], none, [.returnWith (.access 1 "x")]⟩,
      ⟨2, "main", [], [], none, [.declaration 3 "x" none none]⟩]⟩ _ := ⟨9, none, .inl rfl⟩
  have hcall := call_sees_root_only hmain hend rfl rfl rfl "peek" 0 rfl rfl 4 []
  exact ⟨_, _, _, _, hmain, hend, rfl, ⟨rfl, rfl⟩, hcall.2.1, rfl⟩

end Scriptlet
