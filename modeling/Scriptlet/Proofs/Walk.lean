import Scriptlet.Proofs.Watch

/-!
# One walk over programs

Many facts about runs are shown in the same way.  The basic steps have a property, steps that
are put together have it if what they are made of has it, and so every part of a program has
it, by induction on the fuel.  This module walks over the evaluation of a program once, for
all of these facts.

The walk is along a watched run and a run at a time, and it is taken for a relation between a
watched step and a step (`Walk.Rel`).  A fact about runs does not look at the watched step, and
a fact about watched runs does not look at the other one.

| law | step |
| --- | --- |
| `reads`, `lookupVariable`, `allocList`, … | the basic steps, which are of some kind (`StepKind`) |
| `basic` | a basic step is made, and recorded |
| `note`, `place` | something is noted down, and nothing is done |
| `pure`, `seq` | one step after the other |
| `lookupFunction` | the function of a call is looked up, and the call goes on |
| `inScope`, `inScopeOf` | a step is made in a scope of its own |

With `true` a step may declare variables in the current scope.  A walk can ask for certain names
of variables (`StepKind.Named`), and that only certain functions are called, with certain numbers
of arguments (`StepKind.Callable`).

The main result is `Walk.Lawful.relAt`: under these laws every part of a program is in the
relation.  The fuel of the two runs may differ (`Walk.Lawful.relAt_of_le`) if a step that has run
out of fuel is in relation to all others.
-/

namespace Scriptlet

/-! ### Names of variables -/

mutual

/-- The variables that an expression names. -/
def Expr.variables : Expr → List String
  | .literal _ _ => []
  | .group _ inner => inner.variables
  | .binary _ _ left right => left.variables ++ right.variables
  | .access _ name => [name]
  | .element _ name offset => name :: offset.variables
  | .call _ _ args => Expr.variablesOfList args
  | .list _ es => Expr.variablesOfList es

/-- The variables that expressions name. -/
def Expr.variablesOfList : List Expr → List String
  | [] => []
  | e :: es => e.variables ++ Expr.variablesOfList es

end

/-- The variables that an expression names, if there is one. -/
def Expr.variablesOfOption : Option Expr → List String
  | none => []
  | some e => e.variables

mutual

/-- The variables that a statement names or declares. -/
def Stmt.variables : Stmt → List String
  | .expression e => e.variables
  | .declaration _ name _ value => name :: Expr.variablesOfOption value
  | .assignment receiver value => receiver.variables ++ value.variables
  | .ifElse condition thenBody elseBody =>
    condition.variables ++ (Stmt.variablesOfList thenBody ++ Stmt.variablesOfList elseBody)
  | .switch condition arms => condition.variables ++ Case.variablesOfList arms
  | .whileDo condition body => condition.variables ++ Stmt.variablesOfList body
  | .returnWith value => value.variables

/-- The variables that statements name or declare. -/
def Stmt.variablesOfList : List Stmt → List String
  | [] => []
  | first :: rest => first.variables ++ Stmt.variablesOfList rest

/-- The variables that the arms of a `SWITCH` name or declare. -/
def Case.variablesOfList : List Case → List String
  | [] => []
  | .mk value body :: rest =>
    Expr.variablesOfOption value ++ (Stmt.variablesOfList body ++ Case.variablesOfList rest)

end

/-- The parameters of a function, and the variables that its body names or declares. -/
def FunctionDecl.variables (f : FunctionDecl) : List String :=
  f.parameters ++ Stmt.variablesOfList f.body

/-- Whether a statement declares a variable in the scope in which it runs. -/
def Stmt.declares : Stmt → Bool
  | .declaration _ _ _ _ => true
  | _ => false

/-! ### Kinds of steps -/

/-- A step that looks at the lists and changes nothing. -/
def Eval.reads {α : Type} (f : Heap → Except EvalError α) : Eval α := fun m => rule (f m.heap) m

/-- A step that changes an element of a list. -/
def Eval.write (cell : CellId) (i : Nat) (value : Object) : Eval Unit := fun m =>
  .ok () { m with heap := m.heap.write cell i value }

/-- A step that neither looks at the names in scope nor changes them. -/
def Eval.Scopeless {α : Type} (x : Eval α) : Prop :=
  ∀ m s, x { m with scopes := s } = onState (fun n => { n with scopes := s }) (x m)

section Scopeless

variable {α : Type}

/-- What looks at the lists alone does not depend on the scopes. -/
theorem Eval.reads_scopeless (f : Heap → Except EvalError α) : (Eval.reads f).Scopeless := by
  intro m s
  simp only [Eval.reads]
  cases f m.heap <;> rfl

/-- A line is printed whatever scopes there are: its text comes from the lists. -/
theorem Eval.printLine_scopeless (o : Object) : (Eval.printLine o).Scopeless := by
  intro m s
  simp only [Eval.printLine]
  split <;> rfl

/-- A function of the embedding program is given the lists, and no scopes. -/
theorem Eval.callNative_scopeless (name : String) (run : Native) (arguments : List Object) :
    (Eval.callNative name run arguments).Scopeless := by
  intro m s
  simp only [Eval.callNative]
  cases run m.heap arguments <;> rfl

end Scopeless

/-- What a call does if the number of its arguments is right. -/
def Eval.routine (fuel : Nat) (r : Routine Body) (arguments : List Object) : Eval Object :=
  match r.body with
  | .print => do
    arguments.forM printLine
    return .nil
  | .native run => callNative r.name run arguments
  | .declared decl closure =>
    inScopeOf closure do
      bindParameters decl.parameters r.parameterTypes arguments
      return (← block fuel decl.body).result
  | .unbound => fail (.unboundFunction r.name)

/-- A call fails if the number of its arguments is wrong, and is otherwise that of the
function's body. -/
theorem Eval.call_succ (fuel : Nat) (r : Routine Body) (arguments : List Object) :
    call (fuel + 1) r arguments =
      if arguments.length = r.arity then routine fuel r arguments
      else fail (.arityMismatch r.name r.arity arguments.length) := by
  rw [call]
  split <;> rfl

/-- What a watched call does if the number of its arguments is right. -/
def Watch.routine (fuel : Nat) (r : Routine Body) (arguments : List Object) : Watch Object :=
  match r.body with
  | .print => do
    arguments.forM fun o => basic (Eval.printLine o)
    return .nil
  | .native run => basic (Eval.callNative r.name run arguments)
  | .declared decl closure =>
    inScopeOf closure do
      bindParameters decl.parameters r.parameterTypes arguments
      return (← block fuel decl.body).result
  | .unbound => basic (Eval.fail (.unboundFunction r.name))

/-- A watched call, as `Eval.call_succ`. -/
theorem Watch.call_succ (fuel : Nat) (r : Routine Body) (arguments : List Object) :
    call (fuel + 1) r arguments =
      if arguments.length = r.arity then routine fuel r arguments
      else basic (Eval.fail (.arityMismatch r.name r.arity arguments.length)) := by
  rw [call]
  split <;> rfl

/-- There are as many values as there are expressions. -/
theorem Eval.expressions_length {fuel : Nat} {es : List Expr} {m m' : Machine} {os : List Object}
    (h : expressions fuel es m = .ok os m') : os.length = es.length := by
  induction fuel generalizing es m m' os with
  | zero => cases h
  | succ fuel ih =>
    cases es with
    | nil =>
      cases h
      rfl
    | cons e es =>
      obtain ⟨o, m₁, -, hrest⟩ := bind_ok.1 h
      obtain ⟨os', m₂, hos, hcons⟩ := bind_ok.1 hrest
      obtain ⟨rfl, -⟩ := pure_ok.1 hcons
      exact congrArg Nat.succ (ih hos)

/-- There are as many values as there are watched expressions. -/
theorem Watch.expressions_length {fuel : Nat} {es : List Expr} {w w' : Watched} {os : List Object}
    (h : expressions fuel es w = .ok os w') : os.length = es.length := by
  induction fuel generalizing es w w' os with
  | zero => cases h
  | succ fuel ih =>
    cases es with
    | nil =>
      cases h
      rfl
    | cons e es =>
      obtain ⟨o, w₁, -, hrest⟩ := bind_ok.1 h
      obtain ⟨os', w₂, hos, hcons⟩ := bind_ok.1 hrest
      obtain ⟨rfl, -⟩ := pure_ok.1 hcons
      exact congrArg Nat.succ (ih hos)

/-- A kind of basic steps. -/
structure StepKind where
  /-- What the steps have in common.  With `true` a step may declare variables. -/
  Step : {α : Type} → (declares : Bool) → Eval α → Prop
  /-- The names that variables may have. -/
  Named : String → Prop
  /-- The functions that may be called with a number of arguments. -/
  Callable : Routine Body → Nat → Prop

/-- What a walk over programs is taken for. -/
structure Walk extends StepKind where
  /-- The relation between watched steps and steps. -/
  Rel : {α : Type} → (declares : Bool) → Watch α → Eval α → Prop

/-- The basic steps of a program are of this kind. -/
structure StepKind.Lawful (K : StepKind) : Prop where
  andThen : ∀ {α β : Type} {x : Eval α} {f : α → Eval β},
    K.Step false x → (∀ a, K.Step false (f a)) → K.Step false (x >>= f)
  reads : ∀ {α : Type} (f : Heap → Except EvalError α),
    (∀ h name expected found, f h ≠ .error (.arityMismatch name expected found)) →
      K.Step false (Eval.reads f)
  lookupVariable : ∀ {name}, K.Named name → K.Step false (Eval.lookupVariable name)
  assignVariable : ∀ {name}, K.Named name → ∀ value,
    K.Step false (Eval.assignVariable name value)
  defineVariable : ∀ {v : Variable Object}, K.Named v.name → K.Step true (Eval.defineVariable v)
  allocList : ∀ elements, K.Step false (Eval.allocList elements)
  write : ∀ cell i value, K.Step false (Eval.write cell i value)
  printLine : ∀ o, K.Step false (Eval.printLine o)
  callNative : ∀ {r : Routine Body} {run arguments}, K.Callable r arguments.length →
    r.body = .native run → K.Step false (Eval.callNative r.name run arguments)
  mismatch : ∀ {r n}, K.Callable r n → n ≠ r.arity →
    K.Step false (Eval.fail (.arityMismatch r.name r.arity n) : Eval Object)

/-- Variables have names that they may have. -/
def StepKind.Names (K : StepKind) (names : List String) : Prop := ∀ name ∈ names, K.Named name

/-- Steps that are put together are in the relation if what they are made of is. -/
structure Walk.Lawful (W : Walk) : Prop extends steps : StepKind.Lawful W.toStepKind where
  basic : ∀ {α : Type} {declares : Bool} {x : Eval α}, W.Step declares x →
    W.Rel declares (Watch.basic x) x
  weaken : ∀ {α : Type} {x : Watch α} {y : Eval α}, W.Rel false x y → W.Rel true x y
  pure : ∀ {α : Type} (a : α), W.Rel false (pure a) (pure a)
  note : ∀ event, W.Rel false (Watch.note event) (Pure.pure ())
  place : ∀ v, W.Rel false (Watch.place v) (Pure.pure ())
  /-- The second step may rely on what is known of the result of the first. -/
  seq : ∀ {α β : Type} {declares : Bool} {x : Watch α} {y : Eval α} {f : α → Watch β}
    {g : α → Eval β} (P : α → Prop), (∀ w a w', x w = .ok a w' → P a) →
      (∀ m a m', y m = .ok a m' → P a) → W.Rel declares x y →
        (∀ a, P a → W.Rel declares (f a) (g a)) → W.Rel declares (x >>= f) (y >>= g)
  /-- What comes after the lookup may rely on the function's being callable. -/
  lookupFunction : ∀ {α : Type} {f : Routine Body → Watch α} {g : Routine Body → Eval α}
    (name : String) (n : Nat), (∀ r, W.Callable r n → W.Rel false (f r) (g r)) →
      W.Rel false (Watch.basic (Eval.lookupFunction name n) >>= f)
        (Eval.lookupFunction name n >>= g)
  inScope : ∀ {α : Type} {x : Watch α} {y : Eval α}, W.Rel true x y →
    W.Rel false (Watch.inScope x) (Eval.inScope y)
  inScopeOf : ∀ {α : Type} {x : Watch α} {y : Eval α} {r n decl closure}, W.Callable r n →
    r.body = .declared decl closure → W.Rel true x y →
      W.Rel false (Watch.inScopeOf closure x) (Eval.inScopeOf closure y)
  names : ∀ {r n decl closure}, W.Callable r n → r.body = .declared decl closure →
    W.Names decl.variables

/-! ### Basic steps -/

namespace StepKind

/-- Basic steps of whatever kind. -/
def any : StepKind where
  Step _ _ := True
  Named _ := True
  Callable _ _ := True

/-- That a step is of some kind or other asks for nothing. -/
theorem any_lawful : any.Lawful where
  andThen _ _ := trivial
  reads _ _ := trivial
  lookupVariable _ := trivial
  assignVariable _ _ := trivial
  defineVariable _ := trivial
  allocList _ := trivial
  write _ _ _ := trivial
  printLine _ := trivial
  callNative _ _ := trivial
  mismatch _ _ := trivial

namespace Lawful

variable {K : StepKind} {α : Type} (hK : K.Lawful)
include hK

/-- A step that neither looks at the state nor changes it. -/
theorem pure (a : α) : K.Step false (Pure.pure a : Eval α) :=
  hK.reads (fun _ => .ok a) fun _ _ _ _ h => by cases h

/-- A step that fails, for another reason than the number of arguments. -/
theorem fail {e : EvalError} (h : ∀ name expected found, e ≠ .arityMismatch name expected found) :
    K.Step false (Eval.fail e : Eval α) :=
  hK.reads (fun _ => .error e) fun _ name expected found heq =>
    h name expected found (Except.error.inj heq)

/-- A condition must be a truth value; that it is none is the only way to fail. -/
theorem requireBoolean (o : Object) : K.Step false (Eval.requireBoolean o) := by
  unfold Eval.requireBoolean
  split
  · exact hK.pure _
  · exact hK.fail fun _ _ _ h => by cases h

/-- An index must be an integer; that it is none is the only way to fail. -/
theorem requireInteger (o : Object) : K.Step false (Eval.requireInteger o) := by
  unfold Eval.requireInteger
  split
  · exact hK.pure _
  · exact hK.fail fun _ _ _ h => by cases h

/-- A type must have a known name. -/
theorem typeNamed (name : String) : K.Step false (Eval.typeNamed name) := by
  unfold Eval.typeNamed
  split
  · exact hK.pure _
  · exact hK.fail fun _ _ _ h => by cases h

/-- Two values are compared, which looks into their lists. -/
theorem valuesMatch (v condition : Object) : K.Step false (Eval.valuesMatch v condition) :=
  hK.reads (fun h => .ok (h.eqv v.value condition.value)) fun _ _ _ _ h => by cases h

/-- An operator fails for reasons of its own. -/
theorem apply (op : BinaryOp) (a b : Value) :
    K.Step false fun m => Eval.rule (Operator.apply m.heap op a b) m := by
  refine hK.reads (fun h => Operator.apply h op a b) fun h name expected found hfail => ?_
  rcases Operator.apply_error hfail with heq | heq | ⟨_, heq⟩ <;> cases heq

/-- The variable is looked up, and what it holds must be a list. -/
theorem lookupList {name : String} (hname : K.Named name) :
    K.Step false (Eval.lookupList name) := by
  refine hK.andThen (hK.lookupVariable hname) fun v => ?_
  split
  · exact hK.pure _
  · exact hK.fail fun _ _ _ h => by cases h

/-- An index is checked against the length of a list, which is read from the heap. -/
theorem elementIndex (index : Int) (cell : CellId) :
    K.Step false (Eval.elementIndex index cell) := by
  have hsame : Eval.elementIndex index cell = Eval.reads (fun h : Heap =>
      if 0 ≤ index ∧ index < (h.elements cell).length then Except.ok index.toNat
      else .error (.indexOutOfBounds index (h.elements cell).length)) := by
    funext m
    simp only [Eval.elementIndex, Eval.reads]
    split <;> rfl
  rw [hsame]
  refine hK.reads _ fun h name expected found hfail => ?_
  split at hfail <;> cases hfail

/-- A step on an element of the list that a variable holds. -/
theorem atElement {name : String} (hname : K.Named name) (index : Int)
    {x : CellId → Nat → Eval α} (hx : ∀ cell i, K.Step false (x cell i)) :
    K.Step false (do
      let cell ← Eval.lookupList name
      let i ← Eval.elementIndex index cell
      x cell i) :=
  hK.andThen (hK.lookupList hname) fun cell => hK.andThen (hK.elementIndex index cell) (hx cell)

/-- A list is looked up, and one of its elements read. -/
theorem readElement {name : String} (hname : K.Named name) (index : Int) :
    K.Step false (Eval.readElement name index) :=
  hK.atElement hname index fun cell i =>
    hK.reads (fun h => .ok ((h.elements cell)[i]?.getD .nil)) fun _ _ _ _ h => by cases h

/-- A list is looked up, and one of its elements replaced. -/
theorem writeElement {name : String} (hname : K.Named name) (index : Int) (value : Object) :
    K.Step false (Eval.writeElement name index value) :=
  hK.atElement hname index fun cell i => hK.write cell i value

end Lawful
end StepKind

namespace Walk

variable {W : Walk} {α β : Type} {declares : Bool}

/-! ### Steps that are put together -/

namespace Lawful

variable {x : Watch α} {y : Eval α} (hW : W.Lawful)
include hW

/-- One step after the other, whatever the result of the first. -/
theorem bind {f : α → Watch β} {g : α → Eval β} (hxy : W.Rel declares x y)
    (hfg : ∀ a, W.Rel declares (f a) (g a)) : W.Rel declares (x >>= f) (y >>= g) :=
  hW.seq (fun _ => True) (fun _ _ _ _ => trivial) (fun _ _ _ _ => trivial) hxy fun a _ => hfg a

/-- A step that declares nothing may stand where declarations are allowed. -/
theorem weakenTo (h : W.Rel false x y) (declares : Bool) : W.Rel declares x y := by
  cases declares with
  | false => exact h
  | true => exact hW.weaken h

/-- A step may stand where declarations are allowed, whether it declares or not. -/
theorem declaring (h : W.Rel declares x y) : W.Rel true x y := by
  cases declares with
  | false => exact hW.weaken h
  | true => exact h

/-- A step that declares nothing, and one that may. -/
theorem next {f : α → Watch β} {g : α → Eval β} (hxy : W.Rel false x y)
    (hfg : ∀ a, W.Rel declares (f a) (g a)) : W.Rel declares (x >>= f) (y >>= g) :=
  hW.bind (hW.weakenTo hxy declares) hfg

/-- A basic step, and one after it. -/
theorem basicThen {z : Eval α} {f : α → Watch β} {g : α → Eval β} (hz : W.Step false z)
    (hfg : ∀ a, W.Rel declares (f a) (g a)) : W.Rel declares (Watch.basic z >>= f) (z >>= g) :=
  hW.next (hW.basic hz) hfg

/-- A result, where declarations are allowed or not. -/
theorem result (a : α) : W.Rel declares (Pure.pure a) (Pure.pure a) :=
  hW.weakenTo (hW.pure a) declares

/-- The value of an expression is noted down. -/
theorem valued (e : Expr) {x : Watch Object} {y : Eval Object} (h : W.Rel false x y) :
    W.Rel false (Watch.valued e x) y := by
  have hsame : y = (y >>= fun o => Pure.pure () >>= fun _ => Pure.pure o) := by
    funext m
    show y m = EStateM.bind y _ m
    rw [EStateM.bind]
    cases y m <;> rfl
  rw [hsame]
  exact hW.next h fun o => hW.next (hW.note _) fun _ => hW.pure o

/-- The operands of an operator are noted down, and it is applied. -/
theorem applied (op : BinaryOp) (left right : Expr) (a b : Value) :
    W.Rel false (Watch.applied op left right a b)
      fun m => Eval.rule (Operator.apply m.heap op a b) m :=
  hW.next (g := fun _ m => Eval.rule (Operator.apply m.heap op a b) m) (hW.note _) fun _ =>
    hW.basic (hW.apply op a b)

/-- The origin of a variable is noted down, and it is defined. -/
theorem define (origin : Origin) {v : Variable Object} (hname : W.Named v.name) :
    W.Rel true (Watch.defineVariable origin v) (Eval.defineVariable v) :=
  hW.next (g := fun _ => Eval.defineVariable v) (hW.place _) fun _ =>
    hW.basic (hW.defineVariable hname)

/-- A declaration looks up its type, if it names one, and defines the variable. -/
theorem declare (origin : Origin) {name : String} (hname : W.Named name)
    (typeName : Option String) (mutable : Bool) (value : Object) :
    W.Rel true (Watch.declare origin name typeName mutable value)
      (Eval.declare name typeName mutable value) := by
  cases typeName with
  | none => exact hW.define origin (v := ⟨name, value.ty, mutable, value⟩) hname
  | some typeName => exact hW.basicThen (hW.typeNamed typeName) fun _ => hW.define _ hname

/-- Parameters are defined one after the other, as far as there are types and values. -/
theorem bindParameters {names : List String} (hnames : W.Names names) (tys : List Ty)
    (values : List Object) :
    W.Rel true (Watch.bindParameters names tys values) (Eval.bindParameters names tys values) := by
  induction names generalizing tys values with
  | nil => exact hW.result ()
  | cons name names ih =>
    obtain ⟨hname, hrest⟩ := List.forall_mem_cons.1 hnames
    cases tys with
    | nil => exact hW.result ()
    | cons ty tys =>
      cases values with
      | nil => exact hW.result ()
      | cons value values => exact hW.bind (hW.define _ hname) fun _ => ih hrest tys values

omit hW in
/-- Both runs take the same branch. -/
theorem ite {b : Bool} {x' : Watch α} {y' : Eval α} (h : W.Rel declares x y)
    (h' : W.Rel declares x' y') :
    W.Rel declares (if b then x else x') (if b then y else y') := by
  cases b with
  | false => exact h'
  | true => exact h

/-- Steps for the elements of a list, one after the other on both sides. -/
theorem forM {γ : Type} {f : γ → Watch Unit} {g : γ → Eval Unit} {l : List γ}
    (h : ∀ c ∈ l, W.Rel declares (f c) (g c)) : W.Rel declares (l.forM f) (l.forM g) := by
  induction l with
  | nil => exact hW.result ()
  | cons c l ih =>
    obtain ⟨hc, hl⟩ := List.forall_mem_cons.1 h
    exact hW.bind hc fun _ => ih hl

end Lawful

/-! ### Parts of programs -/

/-- With some fuel for the watched run and some for the run, every part of a program is in the
relation. -/
structure RelAt (W : Walk) (fuel fuel' : Nat) : Prop where
  expression : ∀ e, W.Names e.variables →
    W.Rel false (Watch.expression fuel e) (Eval.expression fuel' e)
  expressions : ∀ es, W.Names (Expr.variablesOfList es) →
    W.Rel false (Watch.expressions fuel es) (Eval.expressions fuel' es)
  binary : ∀ op left right, W.Names left.variables → W.Names right.variables →
    W.Rel false (Watch.binary fuel op left right) (Eval.binary fuel' op left right)
  call : ∀ r arguments, W.Callable r arguments.length →
    W.Rel false (Watch.call fuel r arguments) (Eval.call fuel' r arguments)
  statement : ∀ s, W.Names s.variables →
    W.Rel s.declares (Watch.statement fuel s) (Eval.statement fuel' s)
  assignment : ∀ receiver value, W.Names receiver.variables → W.Names value.variables →
    W.Rel false (Watch.assignment fuel receiver value) (Eval.assignment fuel' receiver value)
  block : ∀ body, W.Names (Stmt.variablesOfList body) →
    W.Rel true (Watch.block fuel body) (Eval.block fuel' body)
  cases : ∀ condition arms, W.Names (Case.variablesOfList arms) →
    W.Rel true (Watch.cases fuel condition arms) (Eval.cases fuel' condition arms)
  loop : ∀ condition body, W.Names condition.variables → W.Names (Stmt.variablesOfList body) →
    W.Rel false (Watch.loop fuel condition body) (Eval.loop fuel' condition body)

namespace RelAt

variable {fuel fuel' : Nat} (hW : W.Lawful) (ih : W.RelAt fuel fuel')
include hW ih

/-- A condition is evaluated, and a step made that depends on it. -/
theorem condition {e : Expr} (he : W.Names e.variables) {f : Bool → Watch α} {g : Bool → Eval α}
    (h : ∀ b, W.Rel declares (f b) (g b)) :
    W.Rel declares (do f (← Watch.basic (Eval.requireBoolean (← Watch.expression fuel e))))
      (do g (← Eval.requireBoolean (← Eval.expression fuel' e))) :=
  hW.next (ih.expression e he) fun o => hW.basicThen (hW.requireBoolean o) h

/-- An offset is evaluated, and a step made that depends on it. -/
theorem offset {e : Expr} (he : W.Names e.variables) {f : Int → Watch α} {g : Int → Eval α}
    (h : ∀ i, W.Rel declares (f i) (g i)) :
    W.Rel declares (do f (← Watch.basic (Eval.requireInteger (← Watch.expression fuel e))))
      (do g (← Eval.requireInteger (← Eval.expression fuel' e))) :=
  hW.next (ih.expression e he) fun o => hW.basicThen (hW.requireInteger o) h

/-- An expression, from its parts.  The value is noted down in the watched run alone. -/
theorem expression_succ (e : Expr) (he : W.Names e.variables) :
    W.Rel false (Watch.expression (fuel + 1) e) (Eval.expression (fuel' + 1) e) := by
  refine hW.valued e ?_
  cases e with
  | literal id value => exact hW.pure _
  | group id inner => exact ih.expression inner he
  | binary id op left right =>
    obtain ⟨hleft, hright⟩ := List.forall_mem_append.1 he
    exact ih.binary op left right hleft hright
  | access id name =>
    exact hW.basicThen (hW.lookupVariable (List.forall_mem_singleton.1 he)) fun _ => hW.pure _
  | element id name offset =>
    obtain ⟨hname, hoffset⟩ := List.forall_mem_cons.1 he
    exact ih.offset hW hoffset fun index => hW.basic (hW.readElement hname index)
  | call id name args =>
    -- the function is called with as many values as there are arguments
    refine hW.lookupFunction name args.length fun r hr => ?_
    refine hW.seq (fun os => os.length = args.length) (fun _ _ _ => Watch.expressions_length)
      (fun _ _ _ => Eval.expressions_length) (ih.expressions args he) fun os hos => ?_
    exact ih.call r os (hos ▸ hr)
  | list id es => exact hW.next (ih.expressions es he) fun os => hW.basic (hW.allocList os)

/-- Expressions from left to right. -/
theorem expressions_succ (es : List Expr) (hes : W.Names (Expr.variablesOfList es)) :
    W.Rel false (Watch.expressions (fuel + 1) es) (Eval.expressions (fuel' + 1) es) := by
  cases es with
  | nil => exact hW.pure _
  | cons e es =>
    obtain ⟨he, hes⟩ := List.forall_mem_append.1 hes
    exact hW.next (ih.expression e he) fun _ =>
      hW.next (ih.expressions es hes) fun _ => hW.pure _

/-- The second operand of `&&` and `||` is evaluated only if it matters; other operators are
applied to both values. -/
theorem binary_succ (op : BinaryOp) (left right : Expr) (hleft : W.Names left.variables)
    (hright : W.Names right.variables) :
    W.Rel false (Watch.binary (fuel + 1) op left right)
      (Eval.binary (fuel' + 1) op left right) := by
  have hsecond : W.Rel false
      (do return Object.boolean (← Watch.basic (Eval.requireBoolean
        (← Watch.expression fuel right))))
      (do return Object.boolean (← Eval.requireBoolean (← Eval.expression fuel' right))) :=
    ih.condition hW hright fun _ => hW.pure _
  cases op with
  | and => exact ih.condition hW hleft fun _ => Lawful.ite hsecond (hW.pure _)
  | or => exact ih.condition hW hleft fun _ => Lawful.ite (hW.pure _) hsecond
  | less | greater | equal | notEqual | add | subtract | multiply | divide | power =>
    exact hW.next (ih.expression left hleft) fun _ =>
      hW.next (ih.expression right hright) fun _ => hW.applied _ _ _ _ _

/-- The body of a function: it prints, runs in the embedding program, or runs in a scope of its
own below the one that it was declared in. -/
theorem routine (r : Routine Body) (arguments : List Object) (hr : W.Callable r arguments.length) :
    W.Rel false (Watch.routine fuel r arguments) (Eval.routine fuel' r arguments) := by
  unfold Watch.routine Eval.routine
  cases hbody : r.body with
  | print =>
    exact hW.next (hW.forM fun o _ => hW.basic (hW.printLine o)) fun _ => hW.pure _
  | native run => exact hW.basic (hW.callNative hr hbody)
  | declared decl closure =>
    obtain ⟨hparameters, hnames⟩ := List.forall_mem_append.1 (hW.names hr hbody)
    refine hW.inScopeOf hr hbody (hW.bind (hW.bindParameters hparameters _ _) fun _ => ?_)
    exact hW.bind (ih.block decl.body hnames) fun _ => hW.result _
  | unbound => exact hW.basic (hW.fail fun _ _ _ h => by cases h)

/-- A call with a wrong number of arguments fails, on both sides. -/
theorem call_succ (r : Routine Body) (arguments : List Object)
    (hr : W.Callable r arguments.length) :
    W.Rel false (Watch.call (fuel + 1) r arguments) (Eval.call (fuel' + 1) r arguments) := by
  rw [Watch.call_succ, Eval.call_succ]
  by_cases harity : arguments.length = r.arity
  · rw [if_pos harity, if_pos harity]
    exact ih.routine hW r arguments hr
  · rw [if_neg harity, if_neg harity]
    exact hW.basic (hW.mismatch hr harity)

/-- A statement, from its parts.  Only a declaration declares in the current scope. -/
theorem statement_succ (s : Stmt) (hs : W.Names s.variables) :
    W.Rel s.declares (Watch.statement (fuel + 1) s) (Eval.statement (fuel' + 1) s) := by
  cases s with
  | expression e => exact hW.next (ih.expression e hs) fun _ => hW.pure _
  | declaration id name typeName value =>
    obtain ⟨hname, hvalue⟩ := List.forall_mem_cons.1 hs
    have hdeclare : ∀ o, W.Rel true
        (do Watch.declare (.declared id) name typeName true o; return Flow.next)
        (do Eval.declare name typeName true o; return Flow.next) := fun o =>
      hW.bind (hW.declare _ hname typeName true o) fun _ => hW.result _
    cases value with
    | none => exact hdeclare .nil
    | some e => exact hW.next (ih.expression e hvalue) hdeclare
  | assignment receiver value =>
    obtain ⟨hreceiver, hvalue⟩ := List.forall_mem_append.1 hs
    exact hW.next (ih.assignment receiver value hreceiver hvalue) fun _ => hW.pure _
  | ifElse condition thenBody elseBody =>
    obtain ⟨hcondition, hbodies⟩ := List.forall_mem_append.1 hs
    obtain ⟨hthen, helse⟩ := List.forall_mem_append.1 hbodies
    exact ih.condition hW hcondition fun _ => Lawful.ite (hW.inScope (ih.block thenBody hthen))
      (hW.inScope (ih.block elseBody helse))
  | switch condition arms =>
    obtain ⟨hcondition, harms⟩ := List.forall_mem_append.1 hs
    exact hW.next (ih.expression condition hcondition) fun o => hW.inScope (ih.cases o arms harms)
  | whileDo condition body =>
    obtain ⟨hcondition, hbody⟩ := List.forall_mem_append.1 hs
    exact ih.loop condition body hcondition hbody
  | returnWith value => exact hW.next (ih.expression value hs) fun _ => hW.pure _

/-- An assignment to a variable or to an element; anything else cannot be assigned to. -/
theorem assignment_succ (receiver value : Expr) (hreceiver : W.Names receiver.variables)
    (hvalue : W.Names value.variables) :
    W.Rel false (Watch.assignment (fuel + 1) receiver value)
      (Eval.assignment (fuel' + 1) receiver value) := by
  cases receiver with
  | access id name =>
    have hname := List.forall_mem_singleton.1 hreceiver
    exact hW.next (ih.expression value hvalue) fun o => hW.basic (hW.assignVariable hname o)
  | element id name offset =>
    obtain ⟨hname, hoffset⟩ := List.forall_mem_cons.1 hreceiver
    refine ih.offset hW hoffset fun index => hW.next (ih.expression value hvalue) fun o => ?_
    exact hW.basic (hW.writeElement hname index o)
  | literal | group | binary | call | list =>
    exact hW.basic (hW.fail (e := .invalidAssignmentTarget) fun _ _ _ h => by cases h)

/-- A block goes on as long as its statements do not return. -/
theorem block_succ (body : List Stmt) (hbody : W.Names (Stmt.variablesOfList body)) :
    W.Rel true (Watch.block (fuel + 1) body) (Eval.block (fuel' + 1) body) := by
  cases body with
  | nil => exact hW.result _
  | cons first rest =>
    obtain ⟨hfirst, hrest⟩ := List.forall_mem_append.1 hbody
    refine hW.bind (hW.declaring (ih.statement first hfirst)) fun flow => ?_
    cases flow with
    | next => exact ih.block rest hrest
    | returned value => exact hW.result _

/-- The arms of a `SWITCH` are tried in their order, in one scope. -/
theorem cases_succ (condition : Object) (arms : List Case)
    (harms : W.Names (Case.variablesOfList arms)) :
    W.Rel true (Watch.cases (fuel + 1) condition arms)
      (Eval.cases (fuel' + 1) condition arms) := by
  cases arms with
  | nil => exact hW.result _
  | cons arm rest =>
    obtain ⟨value, body⟩ := arm
    obtain ⟨hvalue, harms⟩ := List.forall_mem_append.1 harms
    obtain ⟨hbody, hrest⟩ := List.forall_mem_append.1 harms
    cases value with
    | none => exact ih.block body hbody
    | some value =>
      refine hW.next (ih.expression value hvalue) fun o => ?_
      exact hW.basicThen (hW.valuesMatch o condition) fun _ =>
        Lawful.ite (ih.block body hbody) (ih.cases condition rest hrest)

/-- A round of a loop in a scope of its own, and the rest of the loop. -/
theorem loop_succ (condition : Expr) (body : List Stmt) (hcondition : W.Names condition.variables)
    (hbody : W.Names (Stmt.variablesOfList body)) :
    W.Rel false (Watch.loop (fuel + 1) condition body)
      (Eval.loop (fuel' + 1) condition body) := by
  refine ih.condition hW hcondition fun _ => Lawful.ite ?_ (hW.pure _)
  refine hW.next (hW.inScope (ih.block body hbody)) fun flow => ?_
  cases flow with
  | next => exact ih.loop condition body hcondition hbody
  | returned value => exact hW.pure _

/-- One more level of fuel on both sides. -/
theorem succ : W.RelAt (fuel + 1) (fuel' + 1) :=
  ⟨ih.expression_succ hW, ih.expressions_succ hW, ih.binary_succ hW, ih.call_succ hW,
    ih.statement_succ hW, ih.assignment_succ hW, ih.block_succ hW, ih.cases_succ hW,
    ih.loop_succ hW⟩

end RelAt

namespace Lawful

variable (hW : W.Lawful)
include hW

/-- **Every part of a program is in the relation of a lawful walk**, whatever the fuel. -/
theorem relAt (hstops : ∀ {α : Type},
      W.Rel false (Watch.basic (Eval.outOfFuel : Eval α)) Eval.outOfFuel) (fuel : Nat) :
    W.RelAt fuel fuel := by
  induction fuel with
  | zero =>
    exact ⟨fun _ _ => hstops, fun _ _ => hstops, fun _ _ _ _ _ => hstops, fun _ _ _ => hstops,
      fun s _ => hW.weakenTo hstops s.declares, fun _ _ _ _ => hstops,
      fun _ _ => hW.weaken hstops, fun _ _ _ => hW.weaken hstops, fun _ _ _ _ => hstops⟩
  | succ fuel ih => exact ih.succ hW

/-- **Two runs with different fuel**, of which the watched one has no more than the other. -/
theorem relAt_of_le (hstops : ∀ {α : Type} (y : Eval α), W.Rel false (Watch.basic Eval.outOfFuel) y)
    {fuel fuel' : Nat} (hle : fuel ≤ fuel') : W.RelAt fuel fuel' := by
  induction fuel generalizing fuel' with
  | zero =>
    exact ⟨fun _ _ => hstops _, fun _ _ => hstops _, fun _ _ _ _ _ => hstops _,
      fun _ _ _ => hstops _, fun s _ => hW.weakenTo (hstops _) s.declares, fun _ _ _ _ => hstops _,
      fun _ _ => hW.weaken (hstops _), fun _ _ _ => hW.weaken (hstops _), fun _ _ _ _ => hstops _⟩
  | succ fuel ih =>
    obtain ⟨n, rfl⟩ : ∃ n, fuel' = n + 1 := ⟨fuel' - 1, by omega⟩
    exact (ih (by omega)).succ hW

end Lawful

/-! ### Programs -/

namespace RelAt

variable {fuel fuel' : Nat} (hW : W.Lawful) (h : W.RelAt fuel fuel')
include hW h

/-- A global is evaluated, if it has a value, and declared. -/
theorem global {g : GlobalDecl} (hname : W.Named g.name)
    (hvalue : W.Names (Expr.variablesOfOption g.value)) :
    W.Rel true (Watch.global fuel g) (Eval.global fuel' g) := by
  have hdeclare := fun o => hW.declare (.declared g.id) hname g.typeName g.mutable o
  unfold Watch.global Eval.global
  cases hg : g.value with
  | none => exact hdeclare .nil
  | some e =>
    rw [hg] at hvalue
    exact hW.next (h.expression e hvalue) hdeclare

/-- The run of a program, if all names are allowed and its functions can be defined. -/
theorem source (hnames : ∀ name, W.Named name) {p : Source}
    (hfunction : ∀ f ∈ p.functions, W.Step true (Eval.function f)) :
    W.Rel true (Watch.source fuel p) (Eval.source fuel' p) := by
  refine hW.bind (hW.forM fun g _ => h.global hW (hnames _) fun _ _ => hnames _) fun _ => ?_
  refine hW.bind (hW.forM fun f hf => hW.basic (hfunction f hf)) fun _ => ?_
  exact hW.weaken (hW.lookupFunction "main" 0 fun r hr => h.call r [] hr)

end RelAt
end Walk

/-! ### Watching changes nothing -/

namespace Watch

/-- The walk that compares a watched run with the run. -/
def erasing : Walk := { StepKind.any with Rel _ x y := Erases x y }

/-- Watching changes no basic step, and nothing that is made of steps that it does not change. -/
theorem erasing_lawful : erasing.Lawful where
  steps := StepKind.any_lawful
  basic _ := .basic _
  weaken h := h
  pure _ := .pure _
  note _ _ := rfl
  place _ _ := rfl
  seq _ hx _ hxy hfg := Erases.bind hxy fun w a w' hok => hfg a (hx w a w' hok)
  lookupFunction _ _ h := (Erases.basic _).bind fun _ r _ _ => h r trivial
  inScope h w := h.inScopeOf w.machine.scopes.current w
  inScopeOf _ _ h := h.inScopeOf _
  names _ _ _ _ := trivial

/-- **Every part of a watched run without its record is that part of the run.** -/
theorem erasesAt (fuel : Nat) : erasing.RelAt fuel fuel :=
  erasing_lawful.relAt (.basic _) fuel

/-- **A watched run without its record is the run.** -/
theorem source_erases (fuel : Nat) (p : Source) : Erases (source fuel p) (Eval.source fuel p) :=
  (erasesAt fuel).source erasing_lawful (fun _ => trivial) fun _ _ => trivial

end Watch
end Scriptlet
