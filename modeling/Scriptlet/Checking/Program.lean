import Scriptlet.Checking.Annotations
import Scriptlet.Checking.Rules
import Scriptlet.Scope

/-!
# Checking programs

Globals are checked in order, then functions; a function is known before its own
body and to all later ones.  Checking stops at the first error, and what was
found out before it is kept.  Every block has a scope of its own, which is closed
however the block ends; the parameters of a function and its body share one.

A list written as the value of a global has the type of its elements.
-/

namespace Scriptlet

/-- What checking knows: the names in scope, the findings so far, and what the
enclosing function returns. -/
structure Checker where
  scopes : Scopes Unit Unit
  annotations : Annotations
  returnType : Option Ty

/-- A step of checking. -/
abbrev Check := EStateM CheckError Checker

namespace Check

/-- Before anything is checked only `print` is known. -/
def start : Checker := ⟨.ofBuiltins [.print ()], .empty, none⟩

/-- Refuses the program. -/
def fail {α : Type} (e : CheckError) : Check α := fun s => .error e s

/-- Applies a typing rule. -/
def rule {α : Type} : Except CheckError α → Check α
  | .ok a => pure a
  | .error e => fail e

/-- Records findings. -/
def record (f : Annotations → Annotations) : Check Unit := fun s =>
  .ok () { s with annotations := f s.annotations }

/-- Records the type of an expression and answers it. -/
def typed (id : NodeId) (ty : Ty) : Check Ty := do
  record (·.setType id ty)
  return ty

/-- Defines a variable in the current scope. -/
def defineVariable (v : Variable Unit) : Check Unit := fun s =>
  match s.scopes.defineVariable v with
  | .ok scopes => .ok () { s with scopes := scopes }
  | .error e => .error (.redefinition e) s

/-- Defines a function in the current scope. -/
def defineFunction (r : Routine Unit) : Check Unit := fun s =>
  match s.scopes.defineFunction r with
  | .ok scopes => .ok () { s with scopes := scopes }
  | .error e => .error (.redefinition e) s

/-- The variable that a name stands for. -/
def lookupVariable (name : String) : Check (Variable Unit) := fun s =>
  match s.scopes.findVariable? name with
  | some v => .ok v s
  | none => .error (.undefinedVariable name) s

/-- The function that a name and a number of arguments stand for. -/
def lookupFunction (name : String) (arity : Nat) : Check (Routine Unit) := fun s =>
  match s.scopes.findFunction? name arity with
  | some r => .ok r s
  | none => .error (.undefinedFunction name arity) s

/-- Runs a step in a new scope below the current one. -/
def inScope {α : Type} (step : Check α) : Check α := fun s =>
  match step { s with scopes := s.scopes.enter s.scopes.current } with
  | .ok a s' => .ok a { s' with scopes := s'.scopes.leave s.scopes.frame }
  | .error e s' => .error e { s' with scopes := s'.scopes.leave s.scopes.frame }

/-- Runs a step as the body of a function that returns `ty`. -/
def returning {α : Type} (ty : Ty) (step : Check α) : Check α := fun s =>
  match step { s with returnType := some ty } with
  | .ok a s' => .ok a { s' with returnType := s.returnType }
  | .error e s' => .error e { s' with returnType := s.returnType }

/-- The type of an access to a variable. -/
def variableType (id : NodeId) (name : String) : Check Ty := do
  let v ← lookupVariable name
  record (·.bindVariable id v)
  typed id v.ty

/-- Whether an expression is an operator with its operands. -/
def isBinary : Expr → Bool
  | .binary .. => true
  | _ => false

mutual

/-- The type of an expression. -/
def expression : Expr → Check Ty
  | .literal id value => do typed id (← rule (typeOfLiteral value))
  | .group id inner => do
    unless isBinary inner do fail .groupNotBinary
    typed id (← expression inner)
  | .binary id op left right => do
    let l ← expression left
    let r ← expression right
    typed id (← rule (typeOfBinary op l r))
  | .access id name => variableType id name
  | .element id name offset => do
    let found ← expression offset
    unless found = .integer do fail (.offsetType found)
    variableType id name
  | .call id name args => do
    let r ← lookupFunction name args.length
    arguments args r.parameterTypes
    record (·.bindFunction id r)
    typed id r.returnType
  | .list id es => do
    elements .any es
    typed id .any

/-- Arguments must fit the parameters they stand for. -/
def arguments : List Expr → List Ty → Check Unit
  | e :: es, ty :: tys => do
    rule (requireFits ty (← expression e))
    arguments es tys
  | _, _ => pure ()

/-- All elements of a list must fit one type. -/
def elements (ty : Ty) : List Expr → Check Unit
  | [] => pure ()
  | e :: es => do
    rule (requireFits ty (← expression e))
    elements ty es

end

/-- The type of a value that may be absent. -/
def expression? : Option Expr → Check (Option Ty)
  | none => pure none
  | some value => some <$> expression value

/-- Defines a variable and records it for the node that declares it. -/
def declare (id : NodeId) (v : Variable Unit) : Check Unit := do
  defineVariable v
  record (·.bindVariable id v)

/-- A condition must be a Boolean. -/
def condition (statement : Conditional) (e : Expr) : Check Unit := do
  let found ← expression e
  unless found = .boolean do fail (.conditionType statement found)

/-- An assignment to the variable `name`, or to an element of the list it holds. -/
def assignTo (name : String) (receiver value : Expr) : Check Unit := do
  let target ← expression receiver
  let v ← lookupVariable name
  unless v.mutable do fail (.immutableAssignment name)
  rule (requireFits target (← expression value))

/-- An assignment. -/
def assignment (receiver value : Expr) : Check Unit :=
  match receiver with
  | .access _ name => assignTo name receiver value
  | .element _ name _ => assignTo name receiver value
  | _ => fail .invalidAssignmentTarget

/-- A value returned from a function. -/
def returnValue (value : Expr) : Check Unit := fun s =>
  match s.returnType with
  | none => .error .returnOutsideFunction s
  | some expected => (do rule (requireFits expected (← expression value)) : Check Unit) s

/-- The value of an arm must have the type of the condition; an arm without a
value must be the last. -/
def caseValue (expected : Ty) (isLast : Bool) : Option Expr → Check Unit
  | some value => do
    let found ← expression value
    unless found = expected do fail (.caseType expected found)
  | none => unless isLast do fail .defaultNotLast

mutual

/-- Checks a statement. -/
def statement : Stmt → Check Unit
  | .expression e =>
    match e with
    | .call .. => do
      let _ ← expression e
    | _ => fail .expressionStatement
  | .declaration id name typeName value => do
    let declared ← rule (typeNamed? typeName)
    let actual ← expression? value
    let ty ← rule (declaredType name declared actual)
    declare id ⟨name, ty, true, ()⟩
  | .assignment receiver value => assignment receiver value
  | .ifElse e thenBody elseBody => do
    condition .ifElse e
    if thenBody.isEmpty then fail .emptyIfBlock
    inScope (block thenBody)
    inScope (block elseBody)
  | .switch e arms => do cases (← expression e) arms
  | .whileDo e body => do
    condition .whileDo e
    inScope (block body)
  | .returnWith value => returnValue value

/-- Checks statements in order. -/
def block : List Stmt → Check Unit
  | [] => pure ()
  | first :: rest => do
    statement first
    block rest

/-- Checks the arms of a `SWITCH` whose condition has type `expected`. -/
def cases (expected : Ty) : List Case → Check Unit
  | [] => pure ()
  | .mk value body :: rest => do
    caseValue expected rest.isEmpty value
    inScope (block body)
    cases expected rest

end

/-- The type of the value of a global; `declared` is the type it is declared with. -/
def globalValue (declared : Option Ty) : Option Expr → Check (Option Ty)
  | some (.list id es) => do
    let ty := declared.getD .any
    elements ty es
    some <$> typed id ty
  | value => expression? value

/-- Checks a global. -/
def global (g : GlobalDecl) : Check Unit := do
  let declared ← rule (typeNamed? g.typeName)
  let actual ← globalValue declared g.value
  let ty ← rule (declaredType g.name declared actual)
  declare g.id ⟨g.name, ty, g.mutable, ()⟩

/-- Defines the parameters of a function, pairing names and types. -/
def parameters : List String → List Ty → Check Unit
  | name :: names, ty :: tys => do
    defineVariable ⟨name, ty, true, ()⟩
    parameters names tys
  | _, _ => pure ()

/-- The type of a function: those of its parameters, and what it returns. -/
def signature (f : FunctionDecl) : Except CheckError (Routine Unit) := do
  let parameterTypes ← f.parameterTypeNames.mapM typeNamed
  let returnType ← typeNamed? f.returnTypeName
  return .named f.name parameterTypes (returnType.getD .nil) ()

/-- Checks a function. -/
def function (f : FunctionDecl) : Check Unit := do
  let r ← rule (signature f)
  defineFunction r
  record (·.bindFunction f.id r)
  returning r.returnType <| inScope do
    parameters f.parameters r.parameterTypes
    block f.body

/-- There must be a function `main` without parameters, and it must return an
integer. -/
def requireMain : Check Unit := fun s =>
  match s.scopes.findFunction? "main" 0 with
  | none => .error .missingMain s
  | some r => if r.returnType = .integer then .ok () s else .error (.mainReturnType r.returnType) s

/-- Checks a whole program. -/
def source (p : Source) : Check Unit := do
  p.globals.forM global
  p.functions.forM function
  requireMain

end Check

/-- What checking a program finds out, or why it is refused. -/
def Source.check (p : Source) : Except CheckError Annotations :=
  match Check.source p Check.start with
  | .ok _ s => .ok s.annotations
  | .error e _ => .error e

end Scriptlet
