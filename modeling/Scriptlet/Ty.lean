/-!
# Types

The eight types of the language.  `any` accepts every type, `comparable` those
that have an order, and every other type accepts itself alone.
-/

namespace Scriptlet

/-- A type of the language. -/
inductive Ty where
  | any
  | nil
  | comparable
  | boolean
  | integer
  | decimal
  | character
  | string
  deriving DecidableEq, Repr

namespace Ty

/-- Every type. -/
def all : List Ty := [any, nil, comparable, boolean, integer, decimal, character, string]

/-- The name of a type in program text. -/
def name : Ty → String
  | any => "Any"
  | nil => "Nil"
  | comparable => "Comparable"
  | boolean => "Boolean"
  | integer => "Integer"
  | decimal => "Decimal"
  | character => "Character"
  | string => "String"

/-- The type of a name, if it has one. -/
def ofName? (name : String) : Option Ty := all.find? (·.name = name)

@[simp] theorem ofName?_name (ty : Ty) : ofName? ty.name = some ty := by
  cases ty <;> rfl

/-- The name of a type in Java text. -/
def javaName : Ty → String
  | any => "Object"
  | nil => "Void"
  | comparable => "Comparable"
  | boolean => "boolean"
  | integer => "int"
  | decimal => "double"
  | character => "char"
  | string => "String"

/-- Whether the values of a type have an order. -/
def isOrdered : Ty → Bool
  | integer | decimal | character | string => true
  | _ => false

/-- Whether a value of type `actual` may stand where `target` is asked for. -/
def accepts (target actual : Ty) : Bool :=
  match target with
  | any => true
  | comparable => actual = comparable || actual.isOrdered
  | _ => target = actual

@[simp] theorem accepts_self (ty : Ty) : ty.accepts ty = true := by
  cases ty <;> rfl

end Ty
end Scriptlet
