import Scriptlet.Binding
import Scriptlet.Tree

/-!
# Why a run stops
-/

namespace Scriptlet

/-- An error that ends a run.  Operands are described by the kinds of their
values. -/
inductive EvalError where
  | undefinedVariable (name : String)
  | undefinedFunction (name : String) (arity : Nat)
  | redefinition (error : DefinitionError)
  | unknownType (name : String)
  | immutableAssignment (name : String)
  | invalidAssignmentTarget
  | invalidOperands (op : BinaryOp) (left right : String)
  | expectedBoolean (found : String)
  | expectedInteger (found : String)
  | expectedList (name : String)
  | indexOutOfBounds (index : Int) (length : Nat)
  | divisionByZero
  | invalidExponent (exponent : Int)
  | arityMismatch (name : String) (expected found : Nat)
  /-- A function that has a type and nothing to run. -/
  | unboundFunction (name : String)
  /-- A function of the embedding program failed. -/
  | native (name message : String)
  | returnOutsideFunction
  /-- The output takes no more bytes. -/
  | outputFull
  deriving DecidableEq, Repr

/-- The wording of an error. -/
def EvalError.message : EvalError → String
  | undefinedVariable name => s!"Undefined variable '{name}'"
  | undefinedFunction name arity => s!"Undefined function '{name}' with {arity} arguments"
  | redefinition error => error.message
  | unknownType name => s!"Unknown type '{name}'"
  | immutableAssignment name => s!"Cannot assign to immutable variable '{name}'"
  | invalidAssignmentTarget => "Only variable or list element access can be assigned"
  | invalidOperands op left right =>
    s!"Operator '{op.symbol}' cannot be applied to {left} and {right}"
  | expectedBoolean found => s!"Expected Boolean, found {found}"
  | expectedInteger found => s!"List offset must be Integer, found {found}"
  | expectedList name => s!"Variable '{name}' does not hold a list"
  | indexOutOfBounds index length => s!"List index {index} out of bounds for length {length}"
  | divisionByZero => "Division by zero"
  | invalidExponent exponent =>
    s!"Exponent must be a non-negative 32-bit Integer, found {exponent}"
  | arityMismatch name expected found =>
    s!"Function '{name}' expected {expected} arguments, got {found}"
  | unboundFunction name => s!"Function '{name}' has no implementation"
  | native name message => s!"Function '{name}' failed: {message}"
  | returnOutsideFunction => "Return outside of function"
  | outputFull => "Failed to write program output: output limit reached"

end Scriptlet
