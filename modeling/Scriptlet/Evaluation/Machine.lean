import Scriptlet.Evaluation.Error
import Scriptlet.Scope
import Scriptlet.Value

/-!
# The state of a run

The names in scope, the cells of lists, and what was printed.  An output may have
a limit: it then takes bytes up to that number and fails on the first one beyond.

A step of a run (`Eval`) changes the state also if it fails.  It fails with an
error of the program, or because it was given too little fuel.
-/

namespace Scriptlet

/-- What was printed, and how many bytes may be printed in all. -/
structure Output where
  bytes : ByteArray
  limit : Option Nat

namespace Output

/-- An output to which nothing was printed. -/
def empty (limit : Option Nat) : Output := ⟨.empty, limit⟩

/-- How many of `wanted` further bytes are taken. -/
def accepted (o : Output) (wanted : Nat) : Nat :=
  match o.limit with
  | none => wanted
  | some limit => min wanted (limit - o.bytes.size)

/-- Prints a text as far as the limit allows: whether all of it was taken, and the
output after it. -/
def write (o : Output) (text : String) : Bool × Output :=
  let bytes := text.toUTF8
  let n := o.accepted bytes.size
  (n = bytes.size, { o with bytes := o.bytes ++ bytes.extract 0 n })

end Output

/-- A function of the embedding program: given the lists and the arguments, it
answers a value and may make new lists.  One that fails answers no heap, so it has changed
no list; a function that changes a list and fails afterwards is not modelled. -/
abbrev Native := Heap → List Object → Except String (Object × Heap)

/-- How a function is run. -/
inductive Body where
  /-- Prints its arguments, each on a line. -/
  | print
  | native (run : Native)
  /-- Runs statements in a scope below the one it was declared in. -/
  | declared (decl : FunctionDecl) (closure : ScopeId)
  /-- Has a type only. -/
  | unbound

/-- The state of a run. -/
structure Machine where
  scopes : Scopes Object Body
  heap : Heap
  output : Output

/-- Why a step has no result. -/
inductive Halt where
  | error (e : EvalError)
  | outOfFuel

/-- A step of a run. -/
abbrev Eval := EStateM Halt Machine

namespace Machine

/-- The state before a run: only `print` is known. -/
def start (limit : Option Nat) : Machine := ⟨.ofBuiltins [.print .print], .empty, .empty limit⟩

end Machine

namespace Eval

/-- Stops with an error. -/
def fail {α : Type} (e : EvalError) : Eval α := fun m => .error (.error e) m

/-- The answer of a rule that needs no state. -/
def rule {α : Type} : Except EvalError α → Eval α
  | .ok a => pure a
  | .error e => fail e

/-- Defines a variable in the current scope. -/
def defineVariable (v : Variable Object) : Eval Unit := fun m =>
  match m.scopes.defineVariable v with
  | .ok scopes => .ok () { m with scopes := scopes }
  | .error e => fail (.redefinition e) m

/-- Defines a function in the current scope. -/
def defineFunction (r : Routine Body) : Eval Unit := fun m =>
  match m.scopes.defineFunction r with
  | .ok scopes => .ok () { m with scopes := scopes }
  | .error e => fail (.redefinition e) m

/-- The variable that a name stands for. -/
def lookupVariable (name : String) : Eval (Variable Object) := fun m =>
  match m.scopes.findVariable? name with
  | some v => .ok v m
  | none => fail (.undefinedVariable name) m

/-- The function that a name and a number of arguments stand for. -/
def lookupFunction (name : String) (arity : Nat) : Eval (Routine Body) := fun m =>
  match m.scopes.findFunction? name arity with
  | some r => .ok r m
  | none => fail (.undefinedFunction name arity) m

/-- Runs a step in a new scope below `parent`, which is closed however the step
ends. -/
def inScopeOf {α : Type} (parent : ScopeId) (step : Eval α) : Eval α := fun m =>
  match step { m with scopes := m.scopes.enter parent } with
  | .ok a m' => .ok a { m' with scopes := m'.scopes.leave m.scopes.frame }
  | .error e m' => .error e { m' with scopes := m'.scopes.leave m.scopes.frame }

/-- Runs a step in a new scope below the current one. -/
def inScope {α : Type} (step : Eval α) : Eval α := fun m => inScopeOf m.scopes.current step m

/-- The cell of the list that a variable holds. -/
def lookupList (name : String) : Eval CellId := do
  match (← lookupVariable name).value.value with
  | .list cell => return cell
  | _ => fail (.expectedList name)

/-- The position of an element, which must be within the list. -/
def elementIndex (index : Int) (cell : CellId) : Eval Nat := fun m =>
  let length := (m.heap.elements cell).length
  if 0 ≤ index ∧ index < length then .ok index.toNat m
  else fail (.indexOutOfBounds index length) m

/-- An element of the list that a variable holds. -/
def readElement (name : String) (index : Int) : Eval Object := do
  let cell ← lookupList name
  let i ← elementIndex index cell
  fun m => .ok ((m.heap.elements cell)[i]?.getD .nil) m

/-- Replaces an element of the list that a variable holds. -/
def writeElement (name : String) (index : Int) (value : Object) : Eval Unit := do
  let cell ← lookupList name
  let i ← elementIndex index cell
  fun m => .ok () { m with heap := m.heap.write cell i value }

/-- Replaces the value of a variable, which must be mutable. -/
def assignVariable (name : String) (value : Object) : Eval Unit := do
  let v ← lookupVariable name
  unless v.mutable do fail (.immutableAssignment name)
  fun m => .ok () { m with scopes := (m.scopes.assign? name value).getD m.scopes }

/-- Makes a list in a new cell. -/
def allocList (elements : List Object) : Eval Object := fun m =>
  let (list, heap) := m.heap.alloc elements
  .ok list { m with heap := heap }

/-- Prints an object on a line. -/
def printLine (o : Object) : Eval Unit := fun m =>
  let (taken, output) := m.output.write (m.heap.text o.value ++ "\n")
  if taken then .ok () { m with output := output }
  else fail .outputFull { m with output := output }

/-- Calls a function of the embedding program.  If it fails, the lists are as before. -/
def callNative (name : String) (run : Native) (arguments : List Object) : Eval Object := fun m =>
  match run m.heap arguments with
  | .ok (value, heap) => .ok value { m with heap := heap }
  | .error message => fail (.native name message) m

/-- A value that must be a Boolean. -/
def requireBoolean (o : Object) : Eval Bool :=
  match o.value with
  | .boolean b => pure b
  | v => fail (.expectedBoolean v.shapeName)

/-- A value that must be an integer, as an offset is. -/
def requireInteger (o : Object) : Eval Int :=
  match o.value with
  | .integer i => pure i
  | v => fail (.expectedInteger v.shapeName)

/-- The type that a name in the program stands for. -/
def typeNamed (name : String) : Eval Ty :=
  match Ty.ofName? name with
  | some ty => pure ty
  | none => fail (.unknownType name)

end Eval
end Scriptlet
