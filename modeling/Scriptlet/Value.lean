import Scriptlet.Decimal.Compare
import Scriptlet.Decimal.Text
import Scriptlet.Tree
import Scriptlet.Ty

/-!
# Values

A run computes objects: a value together with the type it was made under.  A list
is a reference to a cell of the heap, so that all who hold the list see a change
of its elements; a cell is never copied and never changes its length.

Two values are equal if they look equal, whatever cells they are kept in: numbers
as numbers, lists element by element, and elements by type and value.

A list may come to hold itself.  A walk through such a list, to write it or to compare it,
has no end; here it stops at a depth that no other list reaches (`Heap.textWithin`,
`Heap.eqvWithin`), and what it answers there is of this model only.
-/

namespace Scriptlet

/-- The position of a cell in the heap. -/
abbrev CellId := Nat

/-- A value; the elements of a list are in a cell. -/
inductive Value where
  | nil
  | boolean (value : Bool)
  | integer (value : Int)
  | decimal (value : Decimal)
  | character (value : Char)
  | string (value : String)
  | list (cell : CellId)
  deriving DecidableEq, Repr

/-- The name of a value's shape. -/
def Value.shapeName : Value → String
  | nil => "Nil"
  | boolean _ => "Boolean"
  | integer _ => "Integer"
  | decimal _ => "Decimal"
  | character _ => "Character"
  | string _ => "String"
  | list _ => "List"

/-- A value and the type it was made under. -/
structure Object where
  ty : Ty
  value : Value
  deriving DecidableEq, Repr

namespace Object

/-- The object that stands for no value. -/
def nil : Object := ⟨.nil, .nil⟩

/-- A Boolean object. -/
def boolean (value : Bool) : Object := ⟨.boolean, .boolean value⟩

/-- An integer object. -/
def integer (value : Int) : Object := ⟨.integer, .integer value⟩

/-- A decimal object. -/
def decimal (value : Decimal) : Object := ⟨.decimal, .decimal value⟩

/-- A character object. -/
def character (value : Char) : Object := ⟨.character, .character value⟩

/-- A string object. -/
def string (value : String) : Object := ⟨.string, .string value⟩

/-- The list whose elements are in a cell. -/
def list (cell : CellId) : Object := ⟨.any, .list cell⟩

/-- The object that a literal denotes. -/
def ofLiteral : Literal → Object
  | .nil => nil
  | .boolean value => boolean value
  | .integer value => integer value
  | .decimal value => decimal value
  | .character value => character value
  | .string value => string value

end Object

/-- The cells that hold the elements of lists. -/
structure Heap where
  cells : List (List Object)

namespace Heap

/-- The heap without cells. -/
def empty : Heap := ⟨[]⟩

/-- The elements of a list. -/
def elements (h : Heap) (cell : CellId) : List Object := h.cells[cell]?.getD []

/-- Makes a list of some elements in a new cell. -/
def alloc (h : Heap) (elements : List Object) : Object × Heap :=
  (.list h.cells.length, ⟨h.cells ++ [elements]⟩)

/-- Replaces one element of a list. -/
def write (h : Heap) (cell : CellId) (i : Nat) (value : Object) : Heap :=
  ⟨h.cells.modify cell (·.set i value)⟩

/-- The text of a value in which lists are nested at most `n` deep.  The bound is the model's
own: on a list that holds itself a walk without it would not end. -/
def textWithin (h : Heap) : (n : Nat) → Value → String
  | _, .nil => "null"
  | _, .boolean b => if b then "true" else "false"
  | _, .integer i => toString i
  | _, .decimal d => d.toText
  | _, .character c => String.singleton c
  | _, .string s => s
  | 0, .list _ => "[...]"
  | n + 1, .list cell =>
    "[" ++ ", ".intercalate ((h.elements cell).map fun o => h.textWithin n o.value) ++ "]"

/-- The text of a value.  A list that does not hold itself cannot be nested deeper
than there are cells. -/
def text (h : Heap) (v : Value) : String := h.textWithin h.cells.length v

/-- Whether two lists agree element by element. -/
def agree (eq : Object → Object → Bool) : List Object → List Object → Bool
  | [], [] => true
  | a :: as, b :: bs => eq a b && agree eq as bs
  | _, _ => false

/-- Equality of values in which lists are nested at most `n` deep.  As for `textWithin`, the
bound is the model's own. -/
def eqvWithin (h : Heap) : (n : Nat) → Value → Value → Bool
  | _, .decimal a, .decimal b => a.eqv b
  | n + 1, .list a, .list b =>
    agree (fun x y => x.ty = y.ty && h.eqvWithin n x.value y.value) (h.elements a) (h.elements b)
  | 0, .list a, .list b => a = b
  | _, a, b => a = b

/-- Equality of values. -/
def eqv (h : Heap) (a b : Value) : Bool := h.eqvWithin h.cells.length a b

/-- Equality of objects: same type, equal values. -/
def eqvObject (h : Heap) (a b : Object) : Bool := a.ty = b.ty && h.eqv a.value b.value

end Heap
end Scriptlet
