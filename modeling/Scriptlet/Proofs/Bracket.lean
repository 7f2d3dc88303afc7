import Scriptlet.Proofs.Assignment
import Scriptlet.Proofs.Session

/-!
# Between entering and leaving a scope

What is done between entering a scope and leaving it cannot be seen afterwards, but for the
values of variables.  Names may be defined, and may hide others, but they are defined in the
current scope, which is a new one (`Session.Within`), and the new scopes are gone in the end.

An assignment reaches an old variable if it is the nearest of its name from the scope that is
current at that moment.  This may be a child of any open scope, so which variable is reached
depends on all that was done before.  `Session.lastSet?` is the last value that a variable gets.
-/

namespace Scriptlet

variable {α β : Type}

/-- The variable with another value, if there is one. -/
def Variable.given (v : Variable α) (value : Option α) : Variable α :=
  { v with value := value.getD v.value }

theorem Variable.given_given (v : Variable α) (first second : Option α) :
    (v.given first).given second = v.given (second.or first) := by
  cases second <;> rfl

namespace Scopes

variable {s s' : Scopes α β}

theorem Nearest.exists_variable {name : String} {id i : ScopeId} (h : s.Nearest name id i) :
    ∃ v, s.variableAt i name = some v := by
  induction h with
  | here hv => exact ⟨_, hv⟩
  | outer _ _ _ ih => exact ih

theorem nearest_iff_search {name : String} {id i : ScopeId} :
    s.Nearest name id i ↔
      (s.search (fun scope => scope.vars.find? name) s.depth id).map Prod.fst = some i := by
  refine ⟨fun h => ?_, fun h => ?_⟩
  · obtain ⟨v, hv⟩ := h.exists_variable
    obtain ⟨n, hn⟩ := h.search hv
    rw [search_depth hn]
    rfl
  · obtain ⟨⟨j, v⟩, hsearch, rfl⟩ := Option.map_eq_some_iff.1 h
    exact .of_search hsearch

instance (name : String) (id i : ScopeId) : Decidable (s.Nearest name id i) :=
  decidable_of_iff _ nearest_iff_search.symm

/-- Two arenas with the same parents, of which one holds what the other holds, or what is made of
it: a name is found in the same scope. -/
theorem search_map {γ : Type} {get : Scope α β → Option γ} {f : ScopeId → γ → γ}
    (hparent : ∀ i, s'.parentAt i = s.parentAt i)
    (hget : ∀ i : ScopeId, s'.scopes[i]?.bind get = (s.scopes[i]?.bind get).map (f i)) (n : Nat) :
    ∀ id, s'.search get n id = (s.search get n id).map fun found =>
      (found.1, f found.1 found.2) := by
  induction n with
  | zero => exact fun _ => rfl
  | succ n ih =>
    intro id
    rw [search_succ, search_succ, hget, hparent]
    cases s.scopes[id]?.bind get with
    | some a => rfl
    | none =>
      cases (s.parentAt id).join with
      | none => rfl
      | some parent => exact ih parent

/-- The first scopes, up to some position, have the same parents and functions, and variables
that may have got other values. -/
structure Carries (d : Nat) (given : ScopeId → String → Option α) (s s' : Scopes α β) : Prop where
  parents : ∀ i < d, s'.parentAt i = s.parentAt i
  functions : ∀ i < d, ∀ key, s'.functionAt i key = s.functionAt i key
  vars : ∀ i < d, ∀ name, s'.variableAt i name = (s.variableAt i name).map (·.given (given i name))

namespace Carries

variable {d : Nat}

theorem of_scopes_eq (h : ∀ i < d, s'.scopes[i]? = s.scopes[i]?) :
    Carries d (fun _ _ => none) s s' where
  parents i hi := by rw [parentAt, parentAt, h i hi]
  functions i hi key := by rw [functionAt, functionAt, h i hi]
  vars i hi name := by
    rw [variableAt, variableAt, h i hi]
    exact Option.map_id_apply.symm

theorem congr {s₁ s₁' : Scopes α β} {given : ScopeId → String → Option α}
    (h : Carries d given s₁ s₁') (hs : ∀ i < d, s₁.scopes[i]? = s.scopes[i]?)
    (hs' : ∀ i < d, s'.scopes[i]? = s₁'.scopes[i]?) : Carries d given s s' where
  parents i hi := by
    rw [parentAt, hs' i hi, parentAt, ← hs i hi]
    exact h.parents i hi
  functions i hi key := by
    rw [functionAt, hs' i hi, functionAt, ← hs i hi]
    exact h.functions i hi key
  vars i hi name := by
    rw [variableAt, hs' i hi, variableAt, ← hs i hi]
    exact h.vars i hi name

/-- What is given first and what is given later: of two values for one variable the later counts. -/
theorem trans {s₁ : Scopes α β} {given given' : ScopeId → String → Option α}
    (h : Carries d given s s₁) (h' : Carries d given' s₁ s') :
    Carries d (fun i name => (given' i name).or (given i name)) s s' where
  parents i hi := (h'.parents i hi).trans (h.parents i hi)
  functions i hi key := (h'.functions i hi key).trans (h.functions i hi key)
  vars i hi name := by
    rw [h'.vars i hi, h.vars i hi, Option.map_map]
    exact congrArg (Option.map · _) (funext fun v => v.given_given _ _)

end Carries

/-! ### What is done inside -/

namespace Session

variable {t : Session α β} {d : Nat}

/-- The value that an operation gives to the variable of a name in one scope.  An assignment
gives one if that variable is the nearest of its name from the current scope. -/
def sets? (t : Session α β) (i : ScopeId) (name : String) : Op α β → Option α
  | .assign name' value =>
    if name' = name ∧ t.scopes.Nearest name t.scopes.current i then some value else none
  | .enter _ | .leave _ | .defineVariable _ | .defineFunction _ => none

/-- The last value that some operations give to the variable of a name in one scope. -/
def lastSet? (i : ScopeId) (name : String) : Session α β → List (Op α β) → Option α
  | _, [] => none
  | t, op :: ops => (lastSet? i name (t.perform op) ops).or (t.sets? i name op)

/-- Only scopes from some position on are current, or will be when frames are left. -/
structure Within (d : Nat) (t : Session α β) : Prop where
  current : d ≤ t.scopes.current
  depth : d < t.scopes.depth
  frames : ∀ frame ∈ t.frames, d ≤ frame.previous ∧ d < frame.depth

namespace Within

theorem enter (s : Scopes α β) (parent : ScopeId) : Within s.depth ⟨s.enter parent, []⟩ where
  current := Nat.le_refl _
  depth := by rw [depth_enter]; exact Nat.lt_succ_self _
  frames := nofun

/-- What is done inside of the bracket leaves it open. -/
theorem perform (h : t.Within d) (op : Op α β) : (t.perform op).Within d := by
  rcases t.perform_cases op with ⟨parent, rfl⟩ | ⟨forgotten, rfl⟩ | ⟨s, heq, hkept, -⟩
  · refine ⟨Nat.le_of_lt h.depth, ?_, List.forall_mem_cons.2 ⟨⟨h.current, h.depth⟩, h.frames⟩⟩
    rw [Session.perform, depth_enter]
    exact Nat.lt_succ_of_lt h.depth
  · rw [Session.perform]
    split
    · exact h
    · rename_i frame frames hdrop
      have hframes : ∀ f ∈ frame :: frames, d ≤ f.previous ∧ d < f.depth := fun f hf =>
        h.frames f (List.mem_of_mem_drop (hdrop ▸ hf))
      obtain ⟨hprevious, hdepth⟩ := hframes frame List.mem_cons_self
      refine ⟨hprevious, ?_, fun f hf => hframes f (List.mem_cons_of_mem frame hf)⟩
      exact Nat.lt_of_lt_of_eq (Nat.lt_min.2 ⟨hdepth, h.depth⟩) List.length_take.symm
  · rw [heq]
    exact ⟨hkept.current ▸ h.current, hkept.depth ▸ h.depth, h.frames⟩

end Within

/-- An assignment reaches the nearest variable of its name, and no other. -/
theorem carries_assign (t : Session α β) (d : Nat) (name : String) (value : α) :
    Carries d (fun i name' => t.sets? i name' (.assign name value)) t.scopes
      (t.perform (.assign name value)).scopes := by
  rw [perform]
  cases hresolve : t.scopes.resolve? fun scope => scope.vars.find? name with
  | none =>
    have hnone : ∀ i name', t.sets? i name' (.assign name value) = none := by
      intro i name'
      refine if_neg ?_
      rintro ⟨rfl, hnearest⟩
      obtain ⟨v, hv⟩ := hnearest.exists_variable
      cases hresolve.symm.trans (resolve?_eq_some_iff.2 ⟨hnearest, hv⟩)
    simp only [assign?, hresolve, hnone]
    exact .of_scopes_eq fun _ _ => rfl
  | some found =>
    obtain ⟨j, v⟩ := found
    obtain ⟨hnearest, hv⟩ := resolve?_eq_some_iff.1 hresolve
    have hassign : t.scopes.assign? name value =
        some (t.scopes.modify j (·.setVariable name { v with value := value })) := by
      rw [assign?, hresolve]
    rw [hassign, Option.getD_some]
    refine ⟨fun i _ => (Kept.assign hassign).parent i,
      fun i _ key => functionAt_setVariable .., fun i _ name' => ?_⟩
    rw [variableAt_setVariable hv]
    by_cases hplace : j = i ∧ name = name'
    · obtain ⟨rfl, rfl⟩ := hplace
      rw [if_pos ⟨rfl, rfl⟩, hv, sets?, if_pos ⟨rfl, hnearest⟩]
      rfl
    · have hnone : t.sets? i name' (.assign name value) = none := by
        refine if_neg ?_
        rintro ⟨rfl, hnearest'⟩
        refine hplace ⟨?_, rfl⟩
        obtain ⟨v', hv'⟩ := hnearest'.exists_variable
        cases hresolve.symm.trans (resolve?_eq_some_iff.2 ⟨hnearest', hv'⟩)
        rfl
      rw [if_neg hplace, hnone]
      exact Option.map_id_apply.symm

namespace Within

/-- **One operation** leaves the old scopes as they are, but for an assignment that reaches one of
their variables. -/
theorem carries_perform (h : t.Within d) (op : Op α β) :
    Carries d (fun i name => t.sets? i name op) t.scopes (t.perform op).scopes := by
  -- definitions are made in the current scope, which is not an old one
  have hother : ∀ {i : ScopeId} {f : Scope α β → Scope α β}, i < d →
      (t.scopes.modify t.scopes.current f).scopes[i]? = t.scopes.scopes[i]? := by
    intro i f hi
    rw [scopes_modify, if_neg (Nat.ne_of_gt (Nat.lt_of_lt_of_le hi h.current))]
  cases op with
  | enter parent =>
    exact .of_scopes_eq fun i hi => Kept.scopes_enter _ parent (Nat.lt_trans hi h.depth)
  | leave forgotten =>
    refine .of_scopes_eq fun i hi => ?_
    rw [Session.perform]
    split
    · rfl
    · rename_i frame frames hdrop
      have hframe : frame ∈ t.frames := List.mem_of_mem_drop (hdrop ▸ List.mem_cons_self)
      rw [Kept.scopes_leave, if_pos (Nat.lt_trans hi (h.frames frame hframe).2)]
  | defineVariable v =>
    refine .of_scopes_eq fun i hi => ?_
    rw [Session.perform, Scopes.defineVariable]
    split
    · rfl
    · exact hother hi
  | defineFunction r =>
    refine .of_scopes_eq fun i hi => ?_
    rw [Session.perform, Scopes.defineFunction]
    split
    · rfl
    · exact hother hi
  | assign name value => exact t.carries_assign d name value

/-- **Any operations** leave the old scopes as they are, but for the last values that their
variables get. -/
theorem carries_performAll (h : t.Within d) (ops : List (Op α β)) :
    (t.performAll ops).Within d ∧
      Carries d (fun i name => t.lastSet? i name ops) t.scopes (t.performAll ops).scopes := by
  induction ops generalizing t with
  | nil => exact ⟨h, .of_scopes_eq fun _ _ => rfl⟩
  | cons op ops ih =>
    obtain ⟨hwithin, hrest⟩ := ih (h.perform op)
    exact ⟨hwithin, (h.carries_perform op).trans hrest⟩

end Within
end Session

/-! ### What is seen outside -/

/-- Nothing has changed but for the values of variables: as many scopes are open, the same one is
current, and from it every name is found in the same scope, with the same function or variable. -/
structure Undisturbed (given : ScopeId → String → Option α) (s s' : Scopes α β) : Prop where
  depth : s'.depth = s.depth
  current : s'.current = s.current
  holder : ∀ name, s'.holder name = s.holder name
  vars : ∀ name, s'.findVariable? name =
    (s.resolve? fun scope => scope.vars.find? name).map fun found =>
      found.2.given (given found.1 name)
  functions : ∀ name arity, s'.findFunction? name arity = s.findFunction? name arity

/-- All scopes are the same but for the values of variables. -/
theorem Carries.undisturbed {given : ScopeId → String → Option α}
    (h : Carries s.depth given s s') (hdepth : s'.depth = s.depth)
    (hcurrent : s'.current = s.current) : Undisturbed given s s' := by
  have hbeyond : ∀ i : ScopeId, ¬ i < s.depth → s'.scopes[i]? = none ∧ s.scopes[i]? = none :=
    fun i hi =>
      have hle := Nat.le_of_not_lt hi
      ⟨List.getElem?_eq_none (Nat.le_trans (Nat.le_of_eq hdepth) hle), List.getElem?_eq_none hle⟩
  have hparent : ∀ i, s'.parentAt i = s.parentAt i := fun i => by
    by_cases hi : i < s.depth
    · exact h.parents i hi
    · rw [parentAt, parentAt, (hbeyond i hi).1, (hbeyond i hi).2]
  have hvars : ∀ name, (s'.resolve? fun scope => scope.vars.find? name) =
      (s.resolve? fun scope => scope.vars.find? name).map fun found =>
        (found.1, found.2.given (given found.1 name)) := fun name => by
    rw [resolve?, resolve?, hdepth, hcurrent]
    refine search_map (f := fun i (v : Variable α) => v.given (given i name)) hparent
      (fun i => ?_) _ _
    by_cases hi : i < s.depth
    · exact h.vars i hi name
    · rw [(hbeyond i hi).1, (hbeyond i hi).2]
      rfl
  have hfunctions : ∀ key, (s'.resolve? fun scope => scope.functions.find? key) =
      s.resolve? fun scope => scope.functions.find? key := fun key => by
    rw [resolve?, resolve?, hdepth, hcurrent]
    refine (search_map (f := fun _ r => r) hparent (fun i => ?_) _ _).trans Option.map_id_apply
    by_cases hi : i < s.depth
    · exact (h.functions i hi key).trans Option.map_id_apply.symm
    · rw [(hbeyond i hi).1, (hbeyond i hi).2]
      rfl
  refine ⟨hdepth, hcurrent, fun name => ?_, fun name => ?_, fun name arity => ?_⟩
  · cases name with
    | var name =>
      rw [holder, hvars, Option.map_map]
      rfl
    | function name arity => rw [holder, hfunctions, holder]
  · rw [findVariable?, hvars, Option.map_map]
    rfl
  · rw [findFunction?, hfunctions, findFunction?]

/-- **Entering and leaving a scope is invisible**, whatever is done in between.  New scopes may be
opened below any scope, and closed one by one or together; names may be defined, with or without
success, and hide others; variables may be assigned.  Afterwards all scopes that were open have
the same parents, functions and variables.  So from the scope that is current again every name is
found in the same scope as before, and it stands for the same function or variable.  The value of
a variable is the last one that was assigned to its name when it was the nearest of its name from
the scope that was current then, or the one that it had. -/
theorem undisturbed_by_bracket (s : Scopes α β) (parent : ScopeId) (ops : List (Op α β)) :
    let t : Session α β := ⟨s.enter parent, []⟩
    let given := fun i name => t.lastSet? i name ops
    let s' := (t.performAll ops).scopes.leave s.frame
    Carries s.depth given s s' ∧ Undisturbed given s s' := by
  intro t given s'
  obtain ⟨hwithin, hinside⟩ := (Session.Within.enter s parent).carries_performAll ops
  have hcarries : Carries s.depth given s s' := by
    refine hinside.congr (fun i hi => Kept.scopes_enter s parent hi) fun i hi => ?_
    rw [Kept.scopes_leave]
    exact if_pos hi
  have hdepth : s'.depth = s.depth :=
    List.length_take.trans (Nat.min_eq_left (Nat.le_of_lt hwithin.depth))
  exact ⟨hcarries, hcarries.undisturbed hdepth rfl⟩

/-- There is an `x` in the root and one in the scope that is current.  A scope below the root is
entered, in which an assignment reaches the first of them, until another `x` is defined there.  In
a scope below the current one the second is reached. -/
example :
    let s : Scopes Nat Unit := ((Session.start []).performAll
      [.defineVariable ⟨"x", .integer, true, 1⟩, .enter 0,
        .defineVariable ⟨"x", .integer, true, 2⟩]).scopes
    let t : Session Nat Unit := ⟨s.enter 0, []⟩
    let ops : List (Op Nat Unit) := [.assign "x" 5, .defineVariable ⟨"x", .integer, true, 3⟩,
      .assign "x" 6, .enter 1, .assign "x" 7, .enter 2, .leave 1, .assign "x" 8]
    t.AllowsAll ops ∧ t.lastSet? 0 "x" ops = some 5 ∧ t.lastSet? 1 "x" ops = some 7 := by
  decide

end Scopes
end Scriptlet
