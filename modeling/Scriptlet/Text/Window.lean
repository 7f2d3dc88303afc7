import Scriptlet.Token

/-!
# A window on a text

For callers that cut tokens out of a text by hand: a position in the text and
the characters selected just before it.  Offsets from the position are words of 64
bits and wrap around, so the largest one looks at the character before it.
-/

namespace Scriptlet

-- powers are the core library's, whichever others are in scope
attribute [local instance (high)] instPowNat

/-- A text, the position of its next character, and how many characters before
that position are selected. -/
structure Window where
  text : List Char
  index : Nat
  width : Nat

namespace Window

/-- The window at the start of a text, with nothing selected. -/
def ofString (text : String) : Window := ⟨text.toList, 0, 0⟩

/-- The position `offset` places after the next character. -/
def position (w : Window) (offset : Nat) : Nat := (w.index + offset) % 2 ^ (64 : Nat)

/-- The character `offset` places after the next one. -/
def peek? (w : Window) (offset : Nat) : Option Char := w.text[w.position offset]?

/-- Whether there is a character `offset` places after the next one. -/
def has (w : Window) (offset : Nat) : Bool := w.position offset < w.text.length

/-- Selects `count` more characters. -/
def select (w : Window) (count : Nat) : Window :=
  { w with index := w.index + count, width := w.width + count }

/-- Lets go of the selected characters. -/
def release (w : Window) : Window := { w with width := 0 }

/-- Cuts the selected characters out as a token. -/
def cut (w : Window) (kind : TokenKind) : Token × Window :=
  let start := w.index - w.width
  (⟨kind, String.ofList ((w.text.drop start).take w.width), start⟩, w.release)

end Window
end Scriptlet
