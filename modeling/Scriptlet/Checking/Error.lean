import Scriptlet.Binding
import Scriptlet.Decimal.Text
import Scriptlet.Tree

/-!
# Why a program is refused
-/

namespace Scriptlet

/-- The statements that have a condition. -/
inductive Conditional where
  | ifElse
  | whileDo
  deriving DecidableEq, Repr

/-- The word that starts the statement. -/
def Conditional.word : Conditional → String
  | ifElse => "IF"
  | whileDo => "WHILE"

/-- A reason to refuse a program. -/
inductive CheckError where
  | unknownType (name : String)
  | notAssignable (target actual : Ty)
  | undefinedVariable (name : String)
  | undefinedFunction (name : String) (arity : Nat)
  | redefinition (error : DefinitionError)
  /-- A variable has neither a type nor a value. -/
  | missingType (name : String)
  | missingMain
  | mainReturnType (found : Ty)
  /-- An expression other than a call is used as a statement. -/
  | expressionStatement
  | conditionType (statement : Conditional) (found : Ty)
  | emptyIfBlock
  | caseType (expected found : Ty)
  | defaultNotLast
  | invalidAssignmentTarget
  | immutableAssignment (name : String)
  | returnOutsideFunction
  | integerOutOfRange (value : Int)
  | decimalOutOfRange (value : Decimal)
  /-- Parentheses around something other than an operator with its operands. -/
  | groupNotBinary
  | invalidOperands (op : BinaryOp) (left right : Ty)
  | offsetType (found : Ty)
  deriving DecidableEq, Repr

/-- The wording of a reason. -/
def CheckError.message : CheckError → String
  | unknownType name => s!"Unknown type '{name}'"
  | notAssignable target actual =>
    s!"Invalid assignment: attempting to assign {actual.name} to a {target.name} variable"
  | undefinedVariable name => s!"Undefined variable '{name}'"
  | undefinedFunction name arity => s!"Undefined function '{name}' with {arity} arguments"
  | redefinition error => error.message
  | missingType name => s!"Variable '{name}' needs a type or an initial value"
  | missingMain => "Program must define a function main() with no parameters"
  | mainReturnType found => s!"Function main() must return Integer, found {found.name}"
  | expressionStatement => "Expression statements must be function calls"
  | conditionType statement found =>
    s!"{statement.word} condition must be Boolean, found {found.name}"
  | emptyIfBlock => "IF statement must have at least one statement in its then block"
  | caseType expected found =>
    s!"CASE value must match the SWITCH condition type {expected.name}, found {found.name}"
  | defaultNotLast => "DEFAULT must be the last arm of a SWITCH"
  | invalidAssignmentTarget => "Only variable or list element access can be assigned"
  | immutableAssignment name => s!"Cannot assign to immutable variable '{name}'"
  | returnOutsideFunction => "RETURN outside of a function"
  | integerOutOfRange value => s!"Integer literal {value} is outside the 32-bit signed range"
  | decimalOutOfRange value => s!"Decimal literal {value.toText} is not a finite double"
  | groupNotBinary => "Grouped expression must be a binary expression"
  | invalidOperands op left right =>
    s!"Operator '{op.symbol}' cannot be applied to {left.name} and {right.name}"
  | offsetType found => s!"List offset must be Integer, found {found.name}"

end Scriptlet
