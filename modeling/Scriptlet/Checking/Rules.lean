import Scriptlet.Checking.Error
import Scriptlet.Decimal.Compare

/-!
# Typing rules without names

The rules that need no scope: which type goes where, the types of literals and of
operators.
-/

namespace Scriptlet

-- powers are the core library's, whichever others are in scope
attribute [local instance (high)] instPowNat

/-- A value of type `actual` is put where `target` is asked for. -/
def requireFits (target actual : Ty) : Except CheckError Unit :=
  if target.accepts actual then .ok () else .error (.notAssignable target actual)

/-- The type that a name in the program stands for. -/
def typeNamed (name : String) : Except CheckError Ty :=
  match Ty.ofName? name with
  | some ty => .ok ty
  | none => .error (.unknownType name)

/-- The type that an optional name in the program stands for. -/
def typeNamed? : Option String → Except CheckError (Option Ty)
  | none => .ok none
  | some name => (typeNamed name).map some

/-- The type of a new variable: the declared one, which must fit the value if
there is one, or else that of the value. -/
def declaredType (name : String) : (declared actual : Option Ty) → Except CheckError Ty
  | some declared, some actual => (requireFits declared actual).map fun _ => declared
  | some declared, none => .ok declared
  | none, some actual => .ok actual
  | none, none => .error (.missingType name)

/-- Whether an integer fits into 32 bits with a sign. -/
def fitsInt32 (n : Int) : Bool := -2 ^ (31 : Nat) ≤ n ∧ n < 2 ^ (31 : Nat)

/-- The type of a literal; numbers have to be in range. -/
def typeOfLiteral : Literal → Except CheckError Ty
  | .nil => .ok .nil
  | .boolean _ => .ok .boolean
  | .integer n => if fitsInt32 n then .ok .integer else .error (.integerOutOfRange n)
  | .decimal d => if d.isFiniteDouble then .ok .decimal else .error (.decimalOutOfRange d)
  | .character _ => .ok .character
  | .string _ => .ok .string

/-- The type of a sum, difference, product or quotient of two numbers. -/
def typeOfArithmetic (op : BinaryOp) : (left right : Ty) → Except CheckError Ty
  | .integer, .integer => .ok .integer
  | .decimal, .decimal => .ok .decimal
  | left, right => .error (.invalidOperands op left right)

/-- The type of an operator applied to operands of two types. -/
def typeOfBinary (op : BinaryOp) (left right : Ty) : Except CheckError Ty :=
  match op with
  | .and | .or =>
    if left = .boolean ∧ right = .boolean then .ok .boolean
    else .error (.invalidOperands op left right)
  | .less | .greater | .equal | .notEqual => do
    requireFits .comparable left
    requireFits .comparable right
    if left = right then .ok .boolean else .error (.invalidOperands op left right)
  | .add =>
    if left = .string ∨ right = .string then .ok .string else typeOfArithmetic op left right
  | .subtract | .multiply | .divide => typeOfArithmetic op left right
  | .power =>
    if (left = .integer ∨ left = .decimal) ∧ right = .integer then .ok left
    else .error (.invalidOperands op left right)

end Scriptlet
