/-!
# Escape sequences

Inside a character or string literal a backslash and one more character stand
for a single character.

| written | stands for      |
|---------|-----------------|
| `\b`    | backspace       |
| `\n`    | line feed       |
| `\r`    | carriage return |
| `\t`    | tab             |
| `\'`    | single quote    |
| `\"`    | double quote    |
| `\\`    | backslash       |

There are three tables.  The lexer asks which sequences are allowed (`isTarget`), the
parser what they stand for (`target?`, in `decode`), and the Java writer how a
character is written (`encodeChar`).  The first two agree: the sequences that are
allowed are those that stand for something (`isTarget_eq_isSome`).  The writer
leaves the other kind of quote as it is, so its table is smaller.
-/

namespace Scriptlet
namespace Escape

/-- The delimiter of a character literal. -/
def singleQuote : Char := '\x27'

/-- The delimiter of a string literal. -/
def doubleQuote : Char := '\x22'

/-- The character that starts an escape sequence. -/
def backslash : Char := '\x5c'

/-- The backspace character, which also counts as a blank between tokens. -/
def backspace : Char := '\x08'

/-- Whether a backslash followed by `c` is an escape sequence. -/
def isTarget (c : Char) : Bool :=
  c = 'b' || c = 'n' || c = 'r' || c = 't' ||
    c = singleQuote || c = doubleQuote || c = backslash

/-- The character that a backslash followed by `c` stands for, if that is an
escape sequence. -/
def target? (c : Char) : Option Char :=
  if c = 'b' then some backspace
  else if c = 'n' then some '\n'
  else if c = 'r' then some '\r'
  else if c = 't' then some '\t'
  else if c = singleQuote ∨ c = doubleQuote ∨ c = backslash then some c
  else none

/-- **Every sequence that is allowed stands for a character**, and no other does. -/
theorem isTarget_eq_isSome (c : Char) : isTarget c = (target? c).isSome := by
  unfold isTarget target?
  by_cases hb : c = 'b'
  · simp [hb]
  by_cases hn : c = 'n'
  · simp [hn]
  by_cases hr : c = 'r'
  · simp [hr]
  by_cases ht : c = 't'
  · simp [ht]
  by_cases hother : c = singleQuote ∨ c = doubleQuote ∨ c = backslash
  · simp [hb, hn, hr, ht, hother, or_assoc]
  · simp only [hb, hn, hr, ht, if_false, if_neg hother]
    simpa [and_assoc] using hother

/-- Replaces every escape sequence by the character it stands for.  A backslash
before any other character is dropped, and one at the very end is kept. -/
def decode : List Char → List Char
  | [] => []
  | [c] => [c]
  | c :: d :: r =>
    if c = backslash then (target? d).getD d :: decode r else c :: decode (d :: r)

/-- The text between the first and the last character. -/
def unquote (cs : List Char) : List Char := cs.tail.dropLast

/-- How `c` is written between two `quote` characters: control characters that
have an escape sequence, the backslash and the quote itself are escaped. -/
def encodeChar (quote c : Char) : List Char :=
  if c = backspace then [backslash, 'b']
  else if c = '\n' then [backslash, 'n']
  else if c = '\r' then [backslash, 'r']
  else if c = '\t' then [backslash, 't']
  else if c = backslash ∨ c = quote then [backslash, c]
  else [c]

/-- The text of a literal with content `cs`, delimiters included. -/
def encode (quote : Char) (cs : List Char) : List Char :=
  quote :: cs.flatMap (encodeChar quote) ++ [quote]

end Escape
end Scriptlet
