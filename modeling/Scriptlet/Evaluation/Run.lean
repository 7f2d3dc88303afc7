import Scriptlet.Evaluation.Machine
import Scriptlet.Evaluation.Operator

/-!
# Running programs

Expressions are evaluated from left to right, and a function is looked up before
its arguments are evaluated.  Statements run one after the other until one of them
returns.  Branches and each round of a loop have a scope of their own, the arms of
a `SWITCH` share one, and a call runs in a scope below the one its function was
declared in.

A program may run for ever, so every function here takes fuel, which bounds how
deeply calls of these functions are nested, a round of a loop counting as one
level.  With enough fuel the amount does not matter; with too little the answer is
`Halt.outOfFuel` and never another one.
-/

namespace Scriptlet

/-- How a statement ended. -/
inductive Flow where
  /-- The next statement runs. -/
  | next
  /-- The enclosing function returns a value. -/
  | returned (value : Object)

/-- The value of a call whose body ended in this way. -/
def Flow.result : Flow → Object
  | .next => .nil
  | .returned value => value

namespace Eval

/-- Stops because the fuel is used up. -/
def outOfFuel {α : Type} : Eval α := fun m => .error .outOfFuel m

/-- Defines a variable with a value and an optional type name; without one the
variable has the type of the value. -/
def declare (name : String) (typeName : Option String) (mutable : Bool) (value : Object) :
    Eval Unit := do
  let ty ← match typeName with
    | some typeName => typeNamed typeName
    | none => pure value.ty
  defineVariable ⟨name, ty, mutable, value⟩

/-- Defines the parameters of a function, pairing names, types and values. -/
def bindParameters : List String → List Ty → List Object → Eval Unit
  | name :: names, ty :: tys, value :: values => do
    defineVariable ⟨name, ty, true, value⟩
    bindParameters names tys values
  | _, _, _ => pure ()

/-- Whether an arm for the value `v` is chosen. -/
def valuesMatch (v condition : Object) : Eval Bool := fun m =>
  .ok (m.heap.eqv v.value condition.value) m

mutual

/-- The value of an expression. -/
def expression : (fuel : Nat) → Expr → Eval Object
  | 0, _ => outOfFuel
  | fuel + 1, e =>
    match e with
    | .literal _ value => pure (.ofLiteral value)
    | .group _ inner => expression fuel inner
    | .binary _ op left right => binary fuel op left right
    | .access _ name => do return (← lookupVariable name).value
    | .element _ name offset => do
      let index ← requireInteger (← expression fuel offset)
      readElement name index
    | .call _ name args => do
      let r ← lookupFunction name args.length
      call fuel r (← expressions fuel args)
    | .list _ es => do allocList (← expressions fuel es)

/-- The values of expressions, from left to right. -/
def expressions : (fuel : Nat) → List Expr → Eval (List Object)
  | 0, _ => outOfFuel
  | _ + 1, [] => pure []
  | fuel + 1, e :: es => do
    let value ← expression fuel e
    return value :: (← expressions fuel es)

/-- The value of an operator with its operands. -/
def binary : (fuel : Nat) → BinaryOp → (left right : Expr) → Eval Object
  | 0, _, _, _ => outOfFuel
  | fuel + 1, op, left, right =>
    match op with
    | .and => do
      if ← requireBoolean (← expression fuel left) then
        return .boolean (← requireBoolean (← expression fuel right))
      return .boolean false
    | .or => do
      if ← requireBoolean (← expression fuel left) then return .boolean true
      return .boolean (← requireBoolean (← expression fuel right))
    | op => do
      let l ← expression fuel left
      let r ← expression fuel right
      fun m => rule (Operator.apply m.heap op l.value r.value) m

/-- The value of a function for some arguments. -/
def call : (fuel : Nat) → Routine Body → List Object → Eval Object
  | 0, _, _ => outOfFuel
  | fuel + 1, r, arguments => do
    unless arguments.length = r.arity do
      fail (.arityMismatch r.name r.arity arguments.length)
    match r.body with
    | .print => do
      arguments.forM printLine
      return .nil
    | .native run => callNative r.name run arguments
    | .declared decl closure =>
      inScopeOf closure do
        bindParameters decl.parameters r.parameterTypes arguments
        return (← block fuel decl.body).result
    | .unbound => fail (.unboundFunction r.name)

/-- Runs a statement. -/
def statement : (fuel : Nat) → Stmt → Eval Flow
  | 0, _ => outOfFuel
  | fuel + 1, s =>
    match s with
    | .expression e => do
      let _ ← expression fuel e
      return .next
    | .declaration _ name typeName value => do
      let value ← match value with
        | some value => expression fuel value
        | none => pure .nil
      declare name typeName true value
      return .next
    | .assignment receiver value => do
      assignment fuel receiver value
      return .next
    | .ifElse condition thenBody elseBody => do
      if ← requireBoolean (← expression fuel condition) then inScope (block fuel thenBody)
      else inScope (block fuel elseBody)
    | .switch condition arms => do
      let value ← expression fuel condition
      inScope (cases fuel value arms)
    | .whileDo condition body => loop fuel condition body
    | .returnWith value => do return .returned (← expression fuel value)

/-- Runs an assignment. -/
def assignment : (fuel : Nat) → (receiver value : Expr) → Eval Unit
  | 0, _, _ => outOfFuel
  | fuel + 1, receiver, value =>
    match receiver with
    | .access _ name => do assignVariable name (← expression fuel value)
    | .element _ name offset => do
      let index ← requireInteger (← expression fuel offset)
      let value ← expression fuel value
      writeElement name index value
    | _ => fail .invalidAssignmentTarget

/-- Runs statements up to the first that returns. -/
def block : (fuel : Nat) → List Stmt → Eval Flow
  | 0, _ => outOfFuel
  | _ + 1, [] => pure .next
  | fuel + 1, first :: rest => do
    match ← statement fuel first with
    | .next => block fuel rest
    | .returned value => return .returned value

/-- Runs the first arm whose value equals the condition, or that has none. -/
def cases : (fuel : Nat) → (condition : Object) → List Case → Eval Flow
  | 0, _, _ => outOfFuel
  | _ + 1, _, [] => pure .next
  | fuel + 1, _, .mk none body :: _ => block fuel body
  | fuel + 1, condition, .mk (some value) body :: rest => do
    if ← valuesMatch (← expression fuel value) condition then block fuel body
    else cases fuel condition rest

/-- Runs a loop. -/
def loop : (fuel : Nat) → (condition : Expr) → (body : List Stmt) → Eval Flow
  | 0, _, _ => outOfFuel
  | fuel + 1, condition, body => do
    if ← requireBoolean (← expression fuel condition) then
      match ← inScope (block fuel body) with
      | .next => loop fuel condition body
      | .returned value => return .returned value
    else return .next

end

/-- Defines a global. -/
def global (fuel : Nat) (g : GlobalDecl) : Eval Unit := do
  let value ← match g.value with
    | some value => expression fuel value
    | none => pure .nil
  declare g.name g.typeName g.mutable value

/-- Defines a function of the program in the current scope. -/
def function (f : FunctionDecl) : Eval Unit := do
  let parameterTypes ← f.parameterTypeNames.mapM typeNamed
  let returnType ← match f.returnTypeName with
    | some name => typeNamed name
    | none => pure .nil
  fun m =>
    defineFunction (.named f.name parameterTypes returnType (.declared f m.scopes.current)) m

/-- Calls the function that a name and the number of arguments stand for. -/
def invoke (fuel : Nat) (name : String) (arguments : List Object) : Eval Object := do
  call fuel (← lookupFunction name arguments.length) arguments

/-- Runs one statement on its own, which must not return. -/
def execute (fuel : Nat) (s : Stmt) : Eval Unit := do
  match ← statement fuel s with
  | .next => return ()
  | .returned _ => fail .returnOutsideFunction

/-- Runs a program: its globals, its functions, and then `main`. -/
def source (fuel : Nat) (p : Source) : Eval Object := do
  p.globals.forM (global fuel)
  p.functions.forM function
  invoke fuel "main" []

end Eval
end Scriptlet
