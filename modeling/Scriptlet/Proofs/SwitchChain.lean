import Scriptlet.Proofs.Blind

/-!
# A `SWITCH` as a chain of branches

A `SWITCH` with a default can be written with branches alone: its condition is kept in a new
variable, with which the values of the arms are compared one after the other.

| | the `SWITCH` | the chain |
| --- | --- | --- |
| condition | evaluated outside | evaluated in the scope of the variable |
| values | in one scope of all arms | each in the scope of the branch before |
| bodies | in the scope of all arms | in scopes of their own |

The scopes differ, but no part of the program sees that: an expression has the same value in a
scope without names as outside of it (`Blind.inScope_bind`), a body does not notice one scope
more (`Blind.inScope_inScope`), and none of them names the new variable.  So with enough fuel
both have the same result, or both go on for ever (`limit_chain_eq_switch`).
-/

namespace Scriptlet

variable {α β : Type}

/-! ### Endings -/

namespace Ending

/-- What comes after a result matters only at this result. -/
theorem andThen_congr {r : Option (Ending α)} {next next' : α → Machine → Option (Ending β)}
    (h : ∀ a m, r = some (.ok a m) → next a m = next' a m) : andThen r next = andThen r next' := by
  match r with
  | none => rfl
  | some (.ok a m) => exact h a m rfl
  | some (.error e m) => rfl

/-- Both steps are made in another state, and go back to the one from there. -/
theorem andThen_onState {r : Option (Ending α)} {next next' : α → Machine → Option (Ending β)}
    {f g : Machine → Machine}
    (hok : ∀ a m, r = some (.ok a m) → (next a (f m)).map (onState g) = next' a m)
    (herror : ∀ e m, r = some (.error e m) → g (f m) = m) :
    (andThen (r.map (onState f)) next).map (onState g) = andThen r next' := by
  match r with
  | none => rfl
  | some (.ok a m) => exact hok a m rfl
  | some (.error e m) => exact congrArg (fun n => some (EStateM.Result.error e n)) (herror e m rfl)

end Ending

section Beside

variable {X : Scope Object Body} {m : Machine} {x : Nat → Eval α} (hm : m.Admits X)
  (hx : Growing x) (hblind : ∀ fuel, Blind X m.scopes.depth false (x fuel))
include hm hx hblind

/-- With one more scope, a blind step has the same limit in the state with the scope. -/
theorem limit_beside : limit x (m.beside X) = (limit x m).map (onState (·.beside X)) :=
  limit_onState hx hx fun fuel => (hblind fuel).beside hm

/-- When the scope is closed again, the limit is that without it. -/
theorem limit_leave_beside :
    (limit x (m.beside X)).map (onState (·.leave m.scopes.frame)) = limit x m :=
  (limit_onState hx hx fun fuel => ((hblind fuel).leave_beside hm).symm).symm

/-- After a blind step the scope could be opened where it could be before. -/
theorem admits_of_limit_ok {a : α} {n : Machine} (h : limit x m = some (.ok a n)) :
    n.Admits X ∧ n.scopes.frame = m.scopes.frame := by
  obtain ⟨-, fuel, hfuel⟩ := (limit_eq_some_iff hx).1 h
  exact after_eq hfuel ▸ (hblind fuel).admits_after hm

/-- A blind step that fails leaves the frame as it was. -/
theorem frame_of_limit_error {e : Halt} {n : Machine} (h : limit x m = some (.error e n)) :
    n.scopes.frame = m.scopes.frame := by
  obtain ⟨-, fuel, hfuel⟩ := (limit_eq_some_iff hx).1 h
  exact after_eq_of_error hfuel ▸ ((hblind fuel).admits_after hm).2

end Beside

/-! ### The chain -/

/-- An arm `CASE value: body`, and the ids of the nodes by which a chain compares its value. -/
structure Arm where
  value : Expr
  body : List Stmt
  equalId : NodeId
  accessId : NodeId

namespace Arm

/-- The arm in a `SWITCH`. -/
def case (arm : Arm) : Case := .mk (some arm.value) arm.body

/-- The arms and the default of a `SWITCH`. -/
def cases (arms : List Arm) (default : List Stmt) : List Case :=
  arms.map case ++ [.mk none default]

/-- `IF value₁ == t DO body₁ ELSE IF value₂ == t DO body₂ ELSE .. default END .. END`. -/
def chain (t : String) : List Arm → List Stmt → List Stmt
  | [], default => default
  | arm :: arms, default =>
    [.ifElse (.binary arm.equalId .equal arm.value (.access arm.accessId t)) arm.body
      (chain t arms default)]

end Arm

/-- `IF TRUE DO LET t = condition; chain END`, with ids for its new nodes. -/
def Stmt.chain (t : String) (condition : Expr) (arms : List Arm) (default : List Stmt)
    (trueId letId : NodeId) : Stmt :=
  .ifElse (.literal trueId (.boolean true))
    (.declaration letId t none (some condition) :: Arm.chain t arms default) []

/-! ### Parts of the chain -/

namespace Eval

/-- Whether the condition of a branch holds. -/
def holds (fuel : Nat) (condition : Expr) : Eval Bool := do
  requireBoolean (← expression fuel condition)

/-- Whether the arm with this value is chosen. -/
def chooses (fuel : Nat) (value : Expr) (condition : Object) : Eval Bool := do
  valuesMatch (← expression fuel value) condition

/-- A branch is taken by what its condition holds. -/
theorem statement_ifElse (fuel : Nat) (condition : Expr) (thenBody elseBody : List Stmt) :
    statement (fuel + 1) (.ifElse condition thenBody elseBody) = (do
      if ← holds fuel condition then inScope (block fuel thenBody)
      else inScope (block fuel elseBody)) := (bind_assoc _ _ _).symm

/-- The first arm is taken if its value is chosen, and otherwise one of the others. -/
theorem cases_cons (fuel : Nat) (condition : Object) (value : Expr) (body : List Stmt)
    (rest : List Case) :
    cases (fuel + 1) condition (.mk (some value) body :: rest) = (do
      if ← chooses fuel value condition then block fuel body else cases fuel condition rest) :=
  (bind_assoc _ _ _).symm

/-- A block of one statement. -/
theorem block_singleton (fuel : Nat) (s : Stmt) : block (fuel + 1) [s] = statement fuel s := by
  cases fuel with
  | zero => rfl
  | succ fuel =>
    funext m
    show (statement (fuel + 1) s >>= _) m = _
    cases hout : statement (fuel + 1) s m with
    | error e n => exact bind_eq_error hout _
    | ok flow n =>
      rw [bind_eq hout]
      cases flow <;> rfl

end Eval

section Parts

variable {X : Scope Object Body} {d : ScopeId}

/-- With more fuel a condition holds or not as before. -/
theorem holds_growing (condition : Expr) : Growing fun fuel => Eval.holds fuel condition :=
  (Growing.expression condition).bind fun o => .const (Eval.requireBoolean o)

/-- With more fuel an arm is chosen or not as before. -/
theorem chooses_growing (value : Expr) (condition : Object) :
    Growing fun fuel => Eval.chooses fuel value condition :=
  (Growing.expression value).bind fun o => .const (Eval.valuesMatch o condition)

/-- A condition is blind to names that it does not have. -/
theorem holds_blind (fuel : Nat) {condition : Expr} (h : X.Misses condition.variables) :
    Blind X d false (Eval.holds fuel condition) :=
  ((blindAt X d fuel).expression condition h).bind fun _ o _ _ =>
    (blinding_lawful X d).requireBoolean o

/-- The choice of an arm is blind to names that its value does not have. -/
theorem chooses_blind (fuel : Nat) {value : Expr} (h : X.Misses value.variables)
    (condition : Object) : Blind X d false (Eval.chooses fuel value condition) :=
  ((blindAt X d fuel).expression value h).bind fun _ o _ _ =>
    (blinding_lawful X d).valuesMatch o condition

end Parts

/-! ### One scope more or less -/

/-- A branch has scopes of its own and needs none around it. -/
theorem inScope_ifElse {m : Machine} (hm : m.scopes.Anchored) (fuel : Nat) (condition : Expr)
    (thenBody elseBody : List Stmt) :
    Eval.inScope (Eval.statement fuel (.ifElse condition thenBody elseBody)) m =
      Eval.statement fuel (.ifElse condition thenBody elseBody) m := by
  cases fuel with
  | zero => exact congrArg (EStateM.Result.error Halt.outOfFuel) m.leave_beside
  | succ fuel =>
    have hholds : Blind (.empty (some m.scopes.current)) m.scopes.depth false
        (Eval.holds fuel condition) := holds_blind fuel (Scope.misses_empty _)
    rw [Eval.statement_ifElse, Blind.inScope_bind hm hholds]
    cases hout : Eval.holds fuel condition m with
    | error e n => rw [bind_eq_error hout, bind_eq_error hout]
    | ok b n =>
      have hn : n.scopes.Anchored :=
        (after_eq hout ▸ hholds.admits_after hm.admits_empty).1.anchored
      have hbody : ∀ body, Eval.inScope (Eval.inScope (Eval.block fuel body)) n =
          Eval.inScope (Eval.block fuel body) n := fun body =>
        Blind.inScope_inScope hn ((blindAt _ _ fuel).block body (Scope.misses_empty _))
      rw [bind_eq hout, bind_eq hout]
      cases b with
      | true => exact hbody thenBody
      | false => exact hbody elseBody

section Chain

variable {X : Scope Object Body} {m : Machine} (hm : m.Admits X) {t : String}
  {arms : List Arm} {default : List Stmt}
include hm

/-- The chain may have a scope to itself. -/
theorem inScope_chain (hnames : X.Misses (Case.variablesOfList (Arm.cases arms default)))
    (fuel : Nat) :
    onState (·.leave m.scopes.frame)
        (Eval.inScope (Eval.block fuel (Arm.chain t arms default)) (m.beside X)) =
      onState (·.leave m.scopes.frame)
        (Eval.block fuel (Arm.chain t arms default) (m.beside X)) := by
  cases arms with
  | nil => exact Blind.inScope_beside hm ((blindAt _ _ fuel).block default hnames.right.left)
  | cons arm arms =>
    cases fuel with
    | zero => exact Blind.inScope_beside hm fun _ _ h _ => .error .outOfFuel (.refl h)
    | succ fuel =>
      rw [Arm.chain, Eval.block_singleton]
      exact congrArg _ (inScope_ifElse hm.anchored_beside fuel _ _ _)

/-- The variable of the new scope is found there. -/
theorem lookupVariable_beside {v : Variable Object} (hv : X.vars.find? t = some v) :
    Eval.lookupVariable t (m.beside X) = .ok v (m.beside X) := by
  have hfound : (m.beside X).scopes.findVariable? t = some v := by
    show ((m.beside X).scopes.search _ (m.beside X).scopes.depth m.scopes.depth).map Prod.snd = _
    rw [hm.shape.depth, Scopes.search_succ, hm.content.inserted, Option.bind_some, hv]
    rfl
  rw [Eval.lookupVariable, hfound]

/-- The new variable is read in its scope. -/
theorem access_beside {v : Variable Object} (hv : X.vars.find? t = some v) (fuel : Nat)
    (id : NodeId) :
    Eval.expression (fuel + 1) (.access id t) (m.beside X) = .ok v.value (m.beside X) :=
  bind_eq (lookupVariable_beside hm hv) _

/-- A value is compared with the variable of the new scope. -/
theorem holds_equal_beside {v : Variable Object} (hv : X.vars.find? t = some v) {arm : Arm}
    (harm : X.Misses arm.value.variables) (fuel : Nat) :
    Eval.holds (fuel + 3) (.binary arm.equalId .equal arm.value (.access arm.accessId t))
        (m.beside X) =
      Eval.chooses (fuel + 1) arm.value v.value (m.beside X) := by
  have hagree := ((blindAt X _ (fuel + 1)).expression arm.value harm).agree_beside hm
  have hvalue : Eval.holds (fuel + 3)
      (.binary arm.equalId .equal arm.value (.access arm.accessId t)) = (do
        let l ← Eval.expression (fuel + 1) arm.value
        (Eval.expression (fuel + 1) (.access arm.accessId t) >>= fun r m =>
          Eval.rule (Operator.apply m.heap .equal l.value r.value) m) >>= Eval.requireBoolean) :=
    bind_assoc _ _ _
  rw [hvalue, Eval.chooses]
  generalize Eval.expression (fuel + 1) arm.value m = r,
    hr : Eval.expression (fuel + 1) arm.value (m.beside X) = r' at hagree
  cases hagree with
  | error e h => rw [bind_eq_error hr, bind_eq_error hr]
  | @ok o n n' h =>
    obtain ⟨rfl, hn, -⟩ := h
    have hequal : (Eval.expression (fuel + 1) (.access arm.accessId t) >>= fun r m =>
        Eval.rule (Operator.apply m.heap .equal o.value r.value) m) (n.beside X) =
          .ok (.boolean (n.heap.eqv o.value v.value.value)) (n.beside X) :=
      bind_eq (access_beside hn hv fuel arm.accessId) _
    rw [bind_eq hr, bind_eq hr]
    exact bind_eq hequal _

/-- **The comparison in the chain is the one of the `SWITCH`.** -/
theorem limit_holds_equal {v : Variable Object} (hv : X.vars.find? t = some v) {arm : Arm}
    (harm : X.Misses arm.value.variables) :
    limit (fun fuel => Eval.holds fuel
        (.binary arm.equalId .equal arm.value (.access arm.accessId t))) (m.beside X) =
      (limit (fun fuel => Eval.chooses fuel arm.value v.value) m).map (onState (·.beside X)) := by
  have hholds := holds_growing (.binary arm.equalId .equal arm.value (.access arm.accessId t))
  have hchooses := chooses_growing arm.value v.value
  calc _ = limit (fun fuel => Eval.holds (fuel + 3) _) (m.beside X) := (limit_shift hholds 3).symm
    _ = limit (fun fuel => Eval.chooses (fuel + 1) arm.value v.value) (m.beside X) :=
      limit_congr (hchooses.shift 1) (hholds.shift 3) (holds_equal_beside hm hv harm)
    _ = limit (fun fuel => Eval.chooses fuel arm.value v.value) (m.beside X) :=
      limit_shift hchooses 1
    _ = _ := limit_beside hm hchooses fun fuel => chooses_blind fuel harm v.value

end Chain

/-! ### Step by step -/

/-- The first branch of a chain. -/
theorem limit_chain_cons (t : String) (arm : Arm) (arms : List Arm) (default : List Stmt)
    (m : Machine) :
    limit (fun fuel => Eval.block fuel (Arm.chain t (arm :: arms) default)) m =
      Ending.andThen (limit (fun fuel => Eval.holds fuel
        (.binary arm.equalId .equal arm.value (.access arm.accessId t))) m) fun chosen n =>
          limit (fun fuel => if chosen then Eval.inScope (Eval.block fuel arm.body)
            else Eval.inScope (Eval.block fuel (Arm.chain t arms default))) n := by
  have hblock : ∀ fuel, Eval.block (fuel + 2) (Arm.chain t (arm :: arms) default) = (do
      if ← Eval.holds fuel (.binary arm.equalId .equal arm.value (.access arm.accessId t)) then
        Eval.inScope (Eval.block fuel arm.body)
      else Eval.inScope (Eval.block fuel (Arm.chain t arms default))) := fun fuel =>
    (Eval.block_singleton (fuel + 1) _).trans (Eval.statement_ifElse fuel _ _ _)
  rw [← limit_shift (.block _) 2]
  simp only [hblock]
  exact limit_bind (holds_growing _) fun chosen =>
    .ite (Growing.block _).inScope (Growing.block _).inScope chosen

/-- The first arm of a `SWITCH`. -/
theorem limit_cases_cons {m : Machine} (hm : m.scopes.Anchored) (condition : Object) (arm : Arm)
    (rest : List Case) :
    limit (fun fuel => Eval.inScope (Eval.cases fuel condition (arm.case :: rest))) m =
      Ending.andThen (limit (fun fuel => Eval.chooses fuel arm.value condition) m) fun chosen n =>
        limit (fun fuel => Eval.inScope (if chosen then Eval.block fuel arm.body
          else Eval.cases fuel condition rest)) n := by
  have hrest : ∀ chosen : Bool, Growing fun fuel => Eval.inScope (if chosen then
      Eval.block fuel arm.body else Eval.cases fuel condition rest) := fun chosen =>
    (Growing.ite (.block _) (.cases condition rest) chosen).inScope
  have hchooses := chooses_growing arm.value condition
  rw [← limit_bind hchooses hrest, ← limit_shift (Growing.cases condition _).inScope 1]
  refine limit_congr (hchooses.bind hrest) ((Growing.cases condition _).inScope.shift 1)
    fun fuel => ?_
  rw [Arm.case, Eval.cases_cons]
  exact Blind.inScope_bind hm (chooses_blind fuel (Scope.misses_empty _) condition)

/-- **A chain does what the arms of a `SWITCH` do**, in the scope of a variable that holds the
condition. -/
theorem limit_chain {X : Scope Object Body} {t : String} {v : Variable Object}
    (hv : X.vars.find? t = some v) {default : List Stmt} {arms : List Arm}
    (hnames : X.Misses (Case.variablesOfList (Arm.cases arms default))) {m : Machine}
    (hm : m.Admits X) :
    (limit (fun fuel => Eval.block fuel (Arm.chain t arms default)) (m.beside X)).map
        (onState (·.leave m.scopes.frame)) =
      limit (fun fuel => Eval.inScope (Eval.cases fuel v.value (Arm.cases arms default))) m := by
  induction arms generalizing m with
  | nil =>
    have hdefault : X.Misses (Stmt.variablesOfList default) := hnames.right.left
    have hbody := Growing.block default
    rw [← limit_shift (Growing.cases v.value _).inScope 1]
    refine (limit_onState hbody hbody.inScope fun fuel => ?_).symm
    have hblind := (blindAt X m.scopes.depth fuel).block default hdefault
    exact (hblind.inScope.leave_beside hm).symm.trans (hblind.inScope_beside hm)
  | cons arm arms ih =>
    have hvalue : X.Misses arm.value.variables := hnames.left
    have hbody : X.Misses (Stmt.variablesOfList arm.body) := hnames.right.left
    have hrest : X.Misses (Case.variablesOfList (Arm.cases arms default)) := hnames.right.right
    have hchooses := chooses_growing arm.value v.value
    have hblind := fun fuel => chooses_blind (d := m.scopes.depth) fuel hvalue v.value
    rw [limit_chain_cons, limit_holds_equal hm hv hvalue, Arm.cases, List.map_cons,
      List.cons_append, limit_cases_cons hm.anchored]
    refine Ending.andThen_onState (fun chosen n hn => ?_) fun e n hn => ?_
    · obtain ⟨hadmits, hframe⟩ := admits_of_limit_ok hm hchooses hblind hn
      rw [← hframe]
      cases chosen with
      | true =>
        exact limit_leave_beside hadmits (Growing.block arm.body).inScope fun fuel =>
          ((blindAt X _ fuel).block arm.body hbody).inScope
      | false =>
        have hgrowing := Growing.block (Arm.chain t arms default)
        exact (limit_map hgrowing.inScope hgrowing (inScope_chain hadmits hrest)).trans
          (ih hrest hadmits)
    · rw [← frame_of_limit_error hm hchooses hblind hn]
      exact n.leave_beside

/-! ### The whole statement -/

/-- The scope of a chain: it holds the value of the condition. -/
def Arm.scope (t : String) (parent : ScopeId) (o : Object) : Scope Object Body :=
  (Scope.empty (some parent)).addVariable ⟨t, o.ty, true, o⟩

namespace Arm

variable {t : String} {parent : ScopeId} {o : Object}

/-- The scope of the new variable holds nothing else. -/
theorem find?_scope (name : String) :
    (scope t parent o).vars.find? name = if t = name then some ⟨t, o.ty, true, o⟩ else none :=
  Table.find?_insert ..

/-- It has none of the names of the arms. -/
theorem scope_misses {names : List String} (ht : t ∉ names) :
    (scope t parent o).Misses names := fun name hname => by
  rw [find?_scope, if_neg]
  rintro rfl
  exact ht hname

end Arm

/-- The variable for the condition is declared in a new scope. -/
theorem declare_enter (m : Machine) (parent : ScopeId) (t : String) (o : Object) :
    Eval.declare t none true o (m.enter parent) = .ok () (m.beside (Arm.scope t parent o)) := by
  have hcurrent : (m.scopes.enter parent).scopes[m.scopes.depth]? = some (.empty (some parent)) :=
    List.getElem?_concat_length
  have hdefine : (m.scopes.enter parent).defineVariable ⟨t, o.ty, true, o⟩ =
      .ok (m.beside (Arm.scope t parent o)).scopes := by
    rw [Scopes.defineVariable]
    show (if ((m.scopes.enter parent).scopes[m.scopes.depth]?).any _ then _ else _) = _
    rw [hcurrent]
    show Except.ok (Scopes.mk ((m.scopes.scopes ++ [_]).modify m.scopes.scopes.length _) _) = _
    simp [List.modify_eq_set_getElem?, Machine.beside, Scopes.enter, Arm.scope]
  show Eval.defineVariable ⟨t, o.ty, true, o⟩ (m.enter parent) = _
  rw [Eval.defineVariable, Machine.enter, hdefine]
  rfl

section Whole

variable (t : String) (condition : Expr) (arms : List Arm) (default : List Stmt) {m : Machine}

/-- A `SWITCH` evaluates its condition first. -/
theorem limit_switch (m : Machine) :
    limit (fun fuel => Eval.statement fuel (.switch condition (Arm.cases arms default))) m =
      Ending.andThen (limit (fun fuel => Eval.expression fuel condition) m) fun o n =>
        limit (fun fuel => Eval.inScope (Eval.cases fuel o (Arm.cases arms default))) n := by
  rw [← limit_shift (.statement _) 1]
  exact limit_bind (.expression condition) fun o => (Growing.cases o _).inScope

/-- The chain evaluates the condition first as well. -/
theorem limit_statement_chain (hm : m.scopes.Anchored) (trueId letId : NodeId) :
    limit (fun fuel => Eval.statement fuel (.chain t condition arms default trueId letId)) m =
      Ending.andThen (limit (fun fuel => Eval.expression fuel condition) m) fun o n =>
        limit (fun fuel => Eval.inScope (do
          Eval.declare t none true o
          Eval.block (fuel + 1) (Arm.chain t arms default))) n := by
  have hrest : ∀ o : Object, Growing fun fuel => Eval.inScope (do
      Eval.declare t none true o
      Eval.block (fuel + 1) (Arm.chain t arms default)) := fun o =>
    ((Growing.const _).bind fun _ => (Growing.block _).shift 1).inScope
  rw [← limit_bind (.expression condition) hrest, ← limit_shift (.statement _) 3]
  refine limit_congr ((Growing.expression condition).bind hrest) ((Growing.statement _).shift 3)
    fun fuel => ?_
  have hblock : Eval.statement (fuel + 3) (.chain t condition arms default trueId letId) =
      Eval.inScope (do
        let o ← Eval.expression fuel condition
        Eval.declare t none true o
        Eval.block (fuel + 1) (Arm.chain t arms default)) := by
    have htrue : Eval.statement (fuel + 3) (.chain t condition arms default trueId letId) =
        Eval.inScope (Eval.block (fuel + 2)
          (.declaration letId t none (some condition) :: Arm.chain t arms default)) := rfl
    rw [htrue, Eval.block]
    refine congrArg Eval.inScope ((bind_assoc _ _ _).trans (bind_congr fun o => ?_))
    exact bind_assoc _ _ _
  rw [hblock]
  exact Blind.inScope_bind hm ((blindAt _ _ fuel).expression condition (Scope.misses_empty _))

variable {t condition arms default}

/-- **A `SWITCH` and its chain have the same limit.** -/
theorem limit_chain_eq_switch (hm : m.scopes.Anchored)
    (ht : t ∉ (Stmt.switch condition (Arm.cases arms default)).variables)
    (hfunctions : ∀ i key r, m.scopes.functionAt i key = some r →
      ∀ decl closure, r.body = .declared decl closure → t ∉ decl.variables)
    (trueId letId : NodeId) :
    limit (fun fuel => Eval.statement fuel (.chain t condition arms default trueId letId)) m =
      limit (fun fuel => Eval.statement fuel (.switch condition (Arm.cases arms default))) m := by
  have hcondition : t ∉ condition.variables := fun h => ht (List.mem_append_left _ h)
  have hcases : t ∉ Case.variablesOfList (Arm.cases arms default) := fun h =>
    ht (List.mem_append_right _ h)
  rw [limit_statement_chain t condition arms default hm, limit_switch]
  refine Ending.andThen_congr fun o n hn => ?_
  -- the scope of the chain can be opened already before the condition is evaluated
  have hadmits : m.Admits (Arm.scope t m.scopes.current o) :=
    hm.admits rfl (fun _ => rfl) fun i key r hr decl closure hbody =>
      Arm.scope_misses (hfunctions i key r hr decl closure hbody)
  obtain ⟨hadmits, hframe⟩ := admits_of_limit_ok hadmits (.expression condition)
    (fun fuel => (blindAt _ _ fuel).expression condition (Arm.scope_misses hcondition)) hn
  have hcurrent : n.scopes.current = m.scopes.current := congrArg Frame.previous hframe
  have hgrowing := Growing.block (Arm.chain t arms default)
  have hdeclared : ∀ fuel, Eval.inScope (do
      Eval.declare t none true o
      Eval.block (fuel + 1) (Arm.chain t arms default)) n =
        onState (·.leave n.scopes.frame) (Eval.block (fuel + 1) (Arm.chain t arms default)
          (n.beside (Arm.scope t m.scopes.current o))) := by
    intro fuel
    refine (inScopeOf_eq ..).trans (congrArg _ ?_)
    rw [bind_eq (declare_enter n n.scopes.current t o), hcurrent]
  rw [limit_onState (hgrowing.shift 1) ((Growing.const _).bind fun _ => hgrowing.shift 1).inScope
    hdeclared, limit_shift hgrowing 1]
  exact limit_chain ((Arm.find?_scope t).trans (if_pos rfl)) (Arm.scope_misses hcases) hadmits

end Whole

/-- **A `SWITCH` means its chain of branches.**  Take any state in which every scope but the
root has a parent that was opened before it and functions see open scopes, as in every state of
a run (`Machine.OccursIn.anchored`) and of a session of the embedding program
(`Machine.InSession.anchored` in `OpenScopes`), and any name `t` that neither the `SWITCH` nor a
function of that state uses for a variable; a variable of the state may have it.  Then the
`SWITCH` and its chain have the same results: both go on, both return the same value or both fail
with the same error, and they leave the same state, with the same output, the same lists and in
all scopes the same variables.  If one of them goes on for ever, so does the other. -/
theorem switch_means_chain {m : Machine} (hm : m.scopes.Anchored) {t : String} {condition : Expr}
    {arms : List Arm} {default : List Stmt}
    (ht : t ∉ (Stmt.switch condition (Arm.cases arms default)).variables)
    (hfunctions : ∀ i key r, m.scopes.functionAt i key = some r →
      ∀ decl closure, r.body = .declared decl closure → t ∉ decl.variables)
    (trueId letId : NodeId) :
    (∀ result : Ending Flow, Finished result →
      ((∃ fuel, Eval.statement fuel (.switch condition (Arm.cases arms default)) m = result) ↔
        ∃ fuel, Eval.statement fuel (.chain t condition arms default trueId letId) m = result)) ∧
    ((∀ fuel, ¬ Finished (Eval.statement fuel (.switch condition (Arm.cases arms default)) m)) ↔
      ∀ fuel, ¬ Finished
        (Eval.statement fuel (.chain t condition arms default trueId letId) m)) := by
  have hlimit := limit_chain_eq_switch hm ht hfunctions trueId letId
  refine ⟨fun result hresult => ?_, ?_⟩
  · have hswitch := limit_eq_some_iff (m := m) (r := result)
      (Growing.statement (.switch condition (Arm.cases arms default)))
    have hchain := limit_eq_some_iff (m := m) (r := result)
      (Growing.statement (.chain t condition arms default trueId letId))
    rw [hlimit, hswitch] at hchain
    exact ⟨fun h => (hchain.1 ⟨hresult, h⟩).2, fun h => (hchain.2 ⟨hresult, h⟩).2⟩
  · rw [← limit_eq_none_iff, ← limit_eq_none_iff, hlimit]

/-- The root has a variable `t` and a function, which the condition calls.  The second arm is
chosen; it declares a variable and returns it. -/
theorem switch_means_chain_second_arm :
    ∃ m : Machine, m.scopes.Anchored ∧
      m.scopes.findVariable? "t" = some ⟨"t", .nil, true, .nil⟩ ∧
      ∃ fuel, Eval.statement fuel (.chain "t" (.call 1 "two" [])
        [⟨.literal 2 (.integer 1), [], 3, 4⟩,
          ⟨.literal 5 (.integer 2), [.declaration 6 "x" none (some (.literal 7 (.integer 20))),
            .returnWith (.access 8 "x")], 9, 10⟩] [] 11 12) m =
        .ok (.returned (.integer 20)) m := by
  have hdefined : ∀ s s',
      (Machine.start none).scopes.defineVariable ⟨"t", .nil, true, .nil⟩ = .ok s →
      s.defineFunction (.named "two" [] .nil (.declared ⟨0, "two", [], [], none,
        [.returnWith (.literal 13 (.integer 2))]⟩ Scopes.root)) = .ok s' →
      s'.Anchored ∧ ∀ i key r, s'.functionAt i key = some r →
        ∀ decl closure, r.body = .declared decl closure → "t" ∉ decl.variables := by
    intro s s' hv hr
    have hlexical := (Scopes.Lexical.start none).defineVariable hv
    have hlexical' := hlexical.defineFunction (Scopes.Kept.defineVariable hv).current
      (fun _ _ hbody => by cases hbody; rfl) hr
    refine ⟨hlexical'.anchored, fun i key r hfound decl closure hbody => ?_⟩
    rcases Scopes.functionAt_of_defineFunction hr hfound with ⟨-, rfl⟩ | hbefore
    · cases hbody
      decide
    · rw [Scopes.functionAt_defineVariable hv] at hbefore
      rw [Machine.functionAt_start hbefore] at hbody
      cases hbody
  obtain ⟨hanchored, hfunctions⟩ := hdefined _ _ rfl rfl
  exact ⟨⟨_, .empty, .empty none⟩, hanchored, rfl,
    ((switch_means_chain hanchored (by decide) hfunctions 11 12).1 _ (.ok _ _)).1 ⟨9, rfl⟩⟩

end Scriptlet
