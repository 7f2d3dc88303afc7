import Scriptlet.Binding
import Scriptlet.Table
import Scriptlet.Tree

/-!
# What checking finds out

The type of every expression, the variable of every global, local declaration and
access, and the function of every declaration and call.
-/

namespace Scriptlet

/-- What is known about the nodes of a program, by node id. -/
structure Annotations where
  types : Table NodeId Ty
  vars : Table NodeId (Variable Unit)
  functions : Table NodeId (Routine Unit)

namespace Annotations

/-- Nothing is known. -/
def empty : Annotations := ⟨.empty, .empty, .empty⟩

/-- How many expressions have a type. -/
def typeCount (a : Annotations) : Nat := a.types.size

/-- How many nodes have a variable or a function. -/
def bindingCount (a : Annotations) : Nat := a.vars.size + a.functions.size

/-- Records the type of an expression. -/
def setType (a : Annotations) (id : NodeId) (ty : Ty) : Annotations :=
  { a with types := a.types.insert id ty }

/-- Records the variable of a node. -/
def bindVariable (a : Annotations) (id : NodeId) (v : Variable Unit) : Annotations :=
  { a with vars := a.vars.insert id v }

/-- Records the function of a node. -/
def bindFunction (a : Annotations) (id : NodeId) (r : Routine Unit) : Annotations :=
  { a with functions := a.functions.insert id r }

end Annotations
end Scriptlet
