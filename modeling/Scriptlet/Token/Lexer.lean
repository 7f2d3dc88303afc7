import Scriptlet.Token

/-!
# From text to tokens

Blanks (space, tab, carriage return, line feed, backspace) separate tokens.  At
any other character the next token is taken by its first character:

| starts with            | token                                               |
|------------------------|-----------------------------------------------------|
| a letter               | identifier: letters, digits, `_` and `-` follow     |
| a digit, or `-` digit  | integer, or decimal if a dot and a digit follow     |
| `.`                    | operator                                            |
| `'`                    | character: one character or escape, then `'`        |
| `"`                    | string: characters and escapes, then `"`            |
| anything else          | operator of two characters, or else of one          |

A whole part starting with `0` is `0` alone, so `01` is two tokens.  Every
reader below looks at the text *after* the first character of the token and
answers how many more characters belong to it; a token is therefore never
empty, and `lexFrom` ends because each step shortens the text.
-/

namespace Scriptlet

/-- Why a text has no tokens, and where. -/
inductive LexError where
  /-- A single quote is followed by no character that may stand alone. -/
  | invalidCharacter (index : Nat)
  /-- A character literal does not end after one character. -/
  | unterminatedCharacter (index : Nat)
  /-- A string literal meets the end of its line or of the text. -/
  | unterminatedString (index : Nat)
  /-- A backslash starts no escape sequence. -/
  | invalidEscape (index : Nat)
  /-- No token starts with this character. -/
  | unexpectedCharacter (character : Char) (index : Nat)
  deriving DecidableEq, Repr

namespace LexError

/-- The position that the error points at. -/
def index : LexError → Nat
  | invalidCharacter i => i
  | unterminatedCharacter i => i
  | unterminatedString i => i
  | invalidEscape i => i
  | unexpectedCharacter _ i => i

/-- The wording of the error. -/
def message : LexError → String
  | invalidCharacter i => s!"Invalid character literal at index {i}"
  | unterminatedCharacter i => s!"Unterminated character literal at index {i}"
  | unterminatedString i => s!"Unterminated string literal at index {i}"
  | invalidEscape i => s!"Invalid escape sequence at index {i}"
  | unexpectedCharacter c i => s!"Unexpected character '{c}' at index {i}"

end LexError

namespace Lexer

/-- Characters that separate tokens. -/
def isBlank (c : Char) : Bool :=
  c = ' ' || c = '\t' || c = '\r' || c = '\n' || c = Escape.backspace

/-- Characters that may follow the first letter of an identifier. -/
def isNameTail (c : Char) : Bool := c.isAlphanum || c = '_' || c = '-'

/-- Characters that end a line, and with it the literal being read. -/
def endsLine (c : Char) : Bool := c = '\n' || c = '\r'

/-- Characters that are operators on their own. -/
def isOperator (c : Char) : Bool :=
  ['!', '@', '#', '$', '%', '^', '&', '*', '(', ')', '-', '=', '+', ';', ':', '[', ']', ',', '/',
    '<', '>', '.'].contains c

/-- Pairs of characters that are one operator: a comparison character with `=`,
`&&` and `||`. -/
def isOperatorPair (c d : Char) : Bool :=
  (['<', '>', '!', '='].contains c && d = '=') || (c = '&' && d = '&') || (c = '|' && d = '|')

/-- How many digits the text starts with. -/
def digits (cs : List Char) : Nat := (cs.takeWhile Char.isDigit).length

/-- The number that starts with digit `d`: its kind, and how many characters
belong to it after `d`. -/
def numberTail (d : Char) (rest : List Char) : TokenKind × Nat :=
  let whole := if d = '0' then 0 else digits rest
  match rest.drop whole with
  | dot :: f :: r =>
    if dot = '.' ∧ f.isDigit then (.decimal, whole + 2 + digits r) else (.integer, whole)
  | _ => (.integer, whole)

/-- The closing quote of a character literal, expected at position `i`. -/
def closeCharacter (i : Nat) : List Char → Except LexError Unit
  | c :: _ => if c = Escape.singleQuote then .ok () else .error (.unterminatedCharacter i)
  | [] => .error (.unterminatedCharacter i)

/-- How many characters belong to a character literal after its opening quote;
the text starts at position `i`. -/
def characterTail (i : Nat) : List Char → Except LexError Nat
  | [] => .error (.invalidCharacter i)
  | c :: rest =>
    if c = Escape.backslash then
      match rest with
      | e :: rest =>
        if Escape.isTarget e then (closeCharacter (i + 2) rest).map fun _ => 3
        else .error (.invalidEscape (i + 1))
      | [] => .error (.invalidEscape (i + 1))
    else if c = Escape.singleQuote ∨ endsLine c then .error (.invalidCharacter i)
    else (closeCharacter (i + 1) rest).map fun _ => 2

/-- How many characters belong to a string literal from position `i` on, the
closing quote included. -/
def stringTail (i : Nat) : List Char → Except LexError Nat
  | [] => .error (.unterminatedString i)
  | [c] =>
    if c = Escape.doubleQuote then .ok 1
    else if c = Escape.backslash then .error (.invalidEscape (i + 1))
    else if endsLine c then .error (.unterminatedString i)
    else .error (.unterminatedString (i + 1))
  | c :: d :: rest =>
    if c = Escape.doubleQuote then .ok 1
    else if c = Escape.backslash then
      if Escape.isTarget d then (stringTail (i + 2) rest).map (· + 2)
      else .error (.invalidEscape (i + 1))
    else if endsLine c then .error (.unterminatedString i)
    else (stringTail (i + 1) (d :: rest)).map (· + 1)

/-- How many characters belong to an operator after its first one. -/
def operatorTail? (c : Char) (rest : List Char) : Option Nat :=
  if rest.head?.any (isOperatorPair c) then some 1
  else if isOperator c then some 0
  else none

/-- The negative number that starts with the sign `c`, if a digit follows it. -/
def negativeTail? (c : Char) : List Char → Option (TokenKind × Nat)
  | d :: rest =>
    if c = '-' ∧ d.isDigit then
      let (kind, n) := numberTail d rest
      some (kind, n + 1)
    else none
  | [] => none

/-- The token that starts with `c` at position `i`: its kind, and how many
characters of `rest` belong to it. -/
def tokenTail (i : Nat) (c : Char) (rest : List Char) : Except LexError (TokenKind × Nat) :=
  if c.isAlpha then .ok (.identifier, (rest.takeWhile isNameTail).length)
  else if c.isDigit then .ok (numberTail c rest)
  else if c = Escape.singleQuote then (characterTail (i + 1) rest).map (Prod.mk .character)
  else if c = Escape.doubleQuote then (stringTail (i + 1) rest).map (Prod.mk .string)
  else
    match negativeTail? c rest with
    | some number => .ok number
    | none =>
      match operatorTail? c rest with
      | some n => .ok (.operator, n)
      | none => .error (.unexpectedCharacter c i)

/-- The tokens of a text whose first character has position `i`. -/
def lexFrom (i : Nat) : List Char → Except LexError (List Token)
  | [] => .ok []
  | c :: rest =>
    if isBlank c then lexFrom (i + 1) rest
    else
      match tokenTail i c rest with
      | .error e => .error e
      | .ok (kind, n) =>
        match lexFrom (i + 1 + n) (rest.drop n) with
        | .error e => .error e
        | .ok tokens => .ok (⟨kind, String.ofList (c :: rest.take n), i⟩ :: tokens)
termination_by cs => cs.length

end Lexer

/-- The tokens of a program text, in order. -/
def Token.scan (text : String) : Except LexError (List Token) := Lexer.lexFrom 0 text.toList

end Scriptlet
