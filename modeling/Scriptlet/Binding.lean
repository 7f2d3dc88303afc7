import Scriptlet.Ty

/-!
# What names stand for

A name of a variable stands for a `Variable`, a name and a number of arguments
for a `Routine`.  Both carry a part that depends on who asks: checking needs none
(`Unit`), a run needs a value and a way to run the function.
-/

namespace Scriptlet

/-- A variable: its name, its type, whether it may be assigned, and what it holds. -/
structure Variable (α : Type) where
  name : String
  ty : Ty
  mutable : Bool
  value : α
  deriving DecidableEq, Repr

/-- The name of a variable in Java text. -/
def Variable.javaName {α : Type} (v : Variable α) : String := v.name

/-- A function: its name, its name in Java text, its type, and how it is run. -/
structure Routine (β : Type) where
  name : String
  javaName : String
  parameterTypes : List Ty
  returnType : Ty
  body : β
  deriving DecidableEq, Repr

namespace Routine

/-- How many arguments the function takes. -/
def arity {β : Type} (r : Routine β) : Nat := r.parameterTypes.length

/-- A function written in the program; it keeps its name in Java text. -/
def named {β : Type} (name : String) (parameterTypes : List Ty) (returnType : Ty) (body : β) :
    Routine β :=
  ⟨name, name, parameterTypes, returnType, body⟩

/-- The built-in function that prints any value. -/
def print {β : Type} (body : β) : Routine β :=
  ⟨"print", "System.out.println", [.any], .nil, body⟩

end Routine

/-- A name is defined a second time in one scope. -/
inductive DefinitionError where
  | duplicateVariable (name : String)
  | duplicateFunction (name : String) (arity : Nat)
  deriving DecidableEq, Repr

/-- The wording of the error. -/
def DefinitionError.message : DefinitionError → String
  | duplicateVariable name => s!"Variable '{name}' is already defined in this scope"
  | duplicateFunction name arity =>
    s!"Function '{name}/{arity}' is already defined in this scope"

end Scriptlet
