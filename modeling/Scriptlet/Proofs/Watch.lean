import Scriptlet.Evaluation.Run
import Scriptlet.Proofs.Outcome

/-!
# Watched runs

A watched run is a run that keeps a record: the state after every step, the value of
every expression as soon as it is known, and the operands of an operator just before
it is applied.  It also keeps a second arena next to the names in scope, which says of
every variable where it comes from.

| event | when |
| --- | --- |
| `step` | a basic step has succeeded |
| `value e o` | the expression `e` has got the value `o` |
| `applying op left right a b` | `op` is about to be applied to the values `a` and `b` |

Watching changes nothing: a watched step without its record is the step (`Watch.Erases`).
That this is so for every part of a program is shown by the walk in `Walk`.
-/

namespace Scriptlet

/-- Where a variable comes from. -/
inductive Origin where
  /-- The declaration of a global or a local variable. -/
  | declared (id : NodeId)
  /-- A parameter of a type. -/
  | parameter (ty : Ty)

/-- What is recorded besides the state. -/
inductive Event where
  | step
  | value (e : Expr) (o : Object)
  | applying (op : BinaryOp) (left right : Expr) (a b : Value)

/-- An entry of the record. -/
structure Moment where
  machine : Machine
  origins : Scopes Origin Unit
  event : Event

/-- The state of a watched run; the last moment comes first. -/
structure Watched where
  machine : Machine
  origins : Scopes Origin Unit
  record : List Moment

/-- A step of a watched run. -/
abbrev Watch := EStateM Halt Watched

namespace Watch

variable {α β : Type}

/-- The state before a watched run. -/
def start (limit : Option Nat) : Watched := ⟨.start limit, .ofBuiltins [], []⟩

/-- Records an event. -/
def note (event : Event) : Watch Unit := fun w =>
  .ok () { w with record := ⟨w.machine, w.origins, event⟩ :: w.record }

/-- A basic step, which is recorded if it succeeds. -/
def basic (x : Eval α) : Watch α := fun w =>
  match x w.machine with
  | .ok a m => .ok a { w with machine := m, record := ⟨m, w.origins, .step⟩ :: w.record }
  | .error e m => .error e { w with machine := m }

/-- A step that computes the value of an expression. -/
def valued (e : Expr) (x : Watch Object) : Watch Object := do
  let o ← x
  note (.value e o)
  return o

/-- An operator is applied to the values of two expressions. -/
def applied (op : BinaryOp) (left right : Expr) (a b : Value) : Watch Object := do
  note (.applying op left right a b)
  basic fun m => Eval.rule (Operator.apply m.heap op a b) m

/-- An operator that is applied is recorded twice: before it is applied, and as a step if it
succeeds. -/
theorem applied_eq (op : BinaryOp) (left right : Expr) (a b : Value) (w : Watched) :
    applied op left right a b w =
      let applying : Moment := ⟨w.machine, w.origins, .applying op left right a b⟩
      match Operator.apply w.machine.heap op a b with
      | .ok o => .ok o { w with record := ⟨w.machine, w.origins, .step⟩ :: applying :: w.record }
      | .error e => .error (.error e) { w with record := applying :: w.record } := by
  show basic (fun m => Eval.rule (Operator.apply m.heap op a b) m)
    ⟨w.machine, w.origins, ⟨w.machine, w.origins, .applying op left right a b⟩ :: w.record⟩ = _
  simp only [basic]
  cases Operator.apply w.machine.heap op a b <;> rfl

/-- Remembers where a variable comes from. -/
def place (v : Variable Origin) : Watch Unit := fun w =>
  -- if the name is taken, the step after this fails
  .ok () { w with origins := (w.origins.defineVariable v).toOption.getD w.origins }

/-- Defines a variable in the current scope. -/
def defineVariable (origin : Origin) (v : Variable Object) : Watch Unit := do
  place ⟨v.name, v.ty, v.mutable, origin⟩
  basic (Eval.defineVariable v)

/-- Runs a step in a new scope below `parent`. -/
def inScopeOf (parent : ScopeId) (step : Watch α) : Watch α := fun w =>
  match step { w with
    machine := { w.machine with scopes := w.machine.scopes.enter parent }
    origins := w.origins.enter parent } with
  | .ok a w' => .ok a { w' with
      machine := { w'.machine with scopes := w'.machine.scopes.leave w.machine.scopes.frame }
      origins := w'.origins.leave w.origins.frame }
  | .error e w' => .error e { w' with
      machine := { w'.machine with scopes := w'.machine.scopes.leave w.machine.scopes.frame }
      origins := w'.origins.leave w.origins.frame }

/-- Runs a step in a new scope below the current one. -/
def inScope (step : Watch α) : Watch α := fun w => inScopeOf w.machine.scopes.current step w

/-- Defines a variable as `Eval.declare` does. -/
def declare (origin : Origin) (name : String) (typeName : Option String) (mutable : Bool)
    (value : Object) : Watch Unit := do
  let ty ← match typeName with
    | some typeName => basic (Eval.typeNamed typeName)
    | none => pure value.ty
  defineVariable origin ⟨name, ty, mutable, value⟩

/-- Defines the parameters of a function. -/
def bindParameters : List String → List Ty → List Object → Watch Unit
  | name :: names, ty :: tys, value :: values => do
    defineVariable (.parameter ty) ⟨name, ty, true, value⟩
    bindParameters names tys values
  | _, _, _ => pure ()

mutual

/-- The value of an expression, which is recorded. -/
def expression : (fuel : Nat) → Expr → Watch Object
  | 0, _ => basic Eval.outOfFuel
  | fuel + 1, e =>
    valued e <| match e with
      | .literal _ value => pure (.ofLiteral value)
      | .group _ inner => expression fuel inner
      | .binary _ op left right => binary fuel op left right
      | .access _ name => do return (← basic (Eval.lookupVariable name)).value
      | .element _ name offset => do
        let index ← basic (Eval.requireInteger (← expression fuel offset))
        basic (Eval.readElement name index)
      | .call _ name args => do
        let r ← basic (Eval.lookupFunction name args.length)
        call fuel r (← expressions fuel args)
      | .list _ es => do basic (Eval.allocList (← expressions fuel es))

/-- The values of expressions, from left to right. -/
def expressions : (fuel : Nat) → List Expr → Watch (List Object)
  | 0, _ => basic Eval.outOfFuel
  | _ + 1, [] => pure []
  | fuel + 1, e :: es => do
    let value ← expression fuel e
    return value :: (← expressions fuel es)

/-- The value of an operator with its operands. -/
def binary : (fuel : Nat) → BinaryOp → (left right : Expr) → Watch Object
  | 0, _, _, _ => basic Eval.outOfFuel
  | fuel + 1, op, left, right =>
    match op with
    | .and => do
      if ← basic (Eval.requireBoolean (← expression fuel left)) then
        return .boolean (← basic (Eval.requireBoolean (← expression fuel right)))
      return .boolean false
    | .or => do
      if ← basic (Eval.requireBoolean (← expression fuel left)) then return .boolean true
      return .boolean (← basic (Eval.requireBoolean (← expression fuel right)))
    | op => do
      let l ← expression fuel left
      let r ← expression fuel right
      applied op left right l.value r.value

/-- The value of a function for some arguments. -/
def call : (fuel : Nat) → Routine Body → List Object → Watch Object
  | 0, _, _ => basic Eval.outOfFuel
  | fuel + 1, r, arguments => do
    unless arguments.length = r.arity do
      basic (Eval.fail (.arityMismatch r.name r.arity arguments.length))
    match r.body with
    | .print => do
      arguments.forM fun o => basic (Eval.printLine o)
      return .nil
    | .native run => basic (Eval.callNative r.name run arguments)
    | .declared decl closure =>
      inScopeOf closure do
        bindParameters decl.parameters r.parameterTypes arguments
        return (← block fuel decl.body).result
    | .unbound => basic (Eval.fail (.unboundFunction r.name))

/-- Runs a statement. -/
def statement : (fuel : Nat) → Stmt → Watch Flow
  | 0, _ => basic Eval.outOfFuel
  | fuel + 1, s =>
    match s with
    | .expression e => do
      let _ ← expression fuel e
      return .next
    | .declaration id name typeName value => do
      let value ← match value with
        | some value => expression fuel value
        | none => pure .nil
      declare (.declared id) name typeName true value
      return .next
    | .assignment receiver value => do
      assignment fuel receiver value
      return .next
    | .ifElse condition thenBody elseBody => do
      if ← basic (Eval.requireBoolean (← expression fuel condition)) then
        inScope (block fuel thenBody)
      else inScope (block fuel elseBody)
    | .switch condition arms => do
      let value ← expression fuel condition
      inScope (cases fuel value arms)
    | .whileDo condition body => loop fuel condition body
    | .returnWith value => do return .returned (← expression fuel value)

/-- Runs an assignment. -/
def assignment : (fuel : Nat) → (receiver value : Expr) → Watch Unit
  | 0, _, _ => basic Eval.outOfFuel
  | fuel + 1, receiver, value =>
    match receiver with
    | .access _ name => do basic (Eval.assignVariable name (← expression fuel value))
    | .element _ name offset => do
      let index ← basic (Eval.requireInteger (← expression fuel offset))
      let value ← expression fuel value
      basic (Eval.writeElement name index value)
    | _ => basic (Eval.fail .invalidAssignmentTarget)

/-- Runs statements up to the first that returns. -/
def block : (fuel : Nat) → List Stmt → Watch Flow
  | 0, _ => basic Eval.outOfFuel
  | _ + 1, [] => pure .next
  | fuel + 1, first :: rest => do
    match ← statement fuel first with
    | .next => block fuel rest
    | .returned value => return .returned value

/-- Runs the first arm whose value equals the condition, or that has none. -/
def cases : (fuel : Nat) → (condition : Object) → List Case → Watch Flow
  | 0, _, _ => basic Eval.outOfFuel
  | _ + 1, _, [] => pure .next
  | fuel + 1, _, .mk none body :: _ => block fuel body
  | fuel + 1, condition, .mk (some value) body :: rest => do
    if ← basic (Eval.valuesMatch (← expression fuel value) condition) then block fuel body
    else cases fuel condition rest

/-- Runs a loop. -/
def loop : (fuel : Nat) → (condition : Expr) → (body : List Stmt) → Watch Flow
  | 0, _, _ => basic Eval.outOfFuel
  | fuel + 1, condition, body => do
    if ← basic (Eval.requireBoolean (← expression fuel condition)) then
      match ← inScope (block fuel body) with
      | .next => loop fuel condition body
      | .returned value => return .returned value
    else return .next

end

/-- Defines a global. -/
def global (fuel : Nat) (g : GlobalDecl) : Watch Unit := do
  let value ← match g.value with
    | some value => expression fuel value
    | none => pure .nil
  declare (.declared g.id) g.name g.typeName g.mutable value

/-- Runs a program: its globals, its functions, and then `main`. -/
def source (fuel : Nat) (p : Source) : Watch Object := do
  p.globals.forM (global fuel)
  p.functions.forM fun f => basic (Eval.function f)
  call fuel (← basic (Eval.lookupFunction "main" 0)) []

/-! ### Watching changes nothing -/

/-- The state of the run itself. -/
def forget : EStateM.Result Halt Watched α → EStateM.Result Halt Machine α
  | .ok a w => .ok a w.machine
  | .error e w => .error e w.machine

/-- A watched step and the step it watches. -/
def Erases (x : Watch α) (y : Eval α) : Prop := ∀ w, forget (x w) = y w.machine

namespace Erases

/-- A result is not recorded. -/
theorem pure (a : α) : Erases (pure a) (pure a) := fun _ => rfl

/-- One step after the other; the second is compared only for results that the first has. -/
theorem bind {x : Watch α} {y : Eval α} {f : α → Watch β} {g : α → Eval β} (h : Erases x y)
    (hf : ∀ w a w', x w = .ok a w' → Erases (f a) (g a)) : Erases (x >>= f) (y >>= g) := by
  intro w
  have hx := h w
  show forget (EStateM.bind x f w) = EStateM.bind y g w.machine
  rw [EStateM.bind, EStateM.bind, ← hx]
  cases hstep : x w with
  | ok a w' => exact hf w a w' hstep w'
  | error e w' => rfl

/-- A basic step leaves the same state and the same outcome as when it is not watched. -/
theorem basic (x : Eval α) : Erases (basic x) x := by
  intro w
  rw [Watch.basic]
  cases x w.machine <;> rfl

/-- The scope of a step is opened and closed in both arenas. -/
theorem inScopeOf (parent : ScopeId) {x : Watch α} {y : Eval α} (h : Erases x y) :
    Erases (inScopeOf parent x) (Eval.inScopeOf parent y) := by
  intro w
  have hx := h { w with
    machine := { w.machine with scopes := w.machine.scopes.enter parent }
    origins := w.origins.enter parent }
  rw [Watch.inScopeOf, Eval.inScopeOf, ← hx]
  cases x _ <;> rfl

end Erases

end Watch
end Scriptlet
