import Scriptlet.Token
import Scriptlet.Tree

/-!
# Reading tokens one by one

A grammar rule reads tokens from a `Cursor` and hands the cursor on, also when
it fails: what a failing rule has read stays read.  Keywords and punctuation are
recognised by their text alone, names by their kind.

Errors point just past the last token that was read, or at a token that cannot
be what its kind promises.
-/

namespace Scriptlet

/-- What is wrong with a list of tokens. -/
inductive ParseFault where
  /-- Something else was expected to come next. -/
  | expected (what : String)
  /-- A comma stands before the end of a list. -/
  | trailingComma
  /-- An integer token does not denote an integer. -/
  | invalidInteger
  /-- A decimal token does not denote a decimal. -/
  | invalidDecimal
  /-- A character token does not denote exactly one character. -/
  | invalidCharacter
  /-- An operator stands where an expression should start. -/
  | invalidExpression
  deriving DecidableEq, Repr

/-- A fault and the position it is reported at. -/
structure ParseError where
  fault : ParseFault
  index : Nat
  deriving DecidableEq, Repr

/-- The wording of a fault. -/
def ParseFault.message : ParseFault → String
  | expected what => s!"Expected {what}"
  | trailingComma => "Trailing comma"
  | invalidInteger => "Invalid integer literal"
  | invalidDecimal => "Invalid decimal literal"
  | invalidCharacter => "Invalid character literal"
  | invalidExpression => "Invalid expression"

/-- The wording of an error. -/
def ParseError.message (e : ParseError) : String := s!"{e.fault.message} at index {e.index}"

/-- The tokens still to be read, the position just past the last token that was
read (0 before the first), and the identity of the next node. -/
structure Cursor where
  rest : List Token
  stop : Nat
  nextId : NodeId

namespace Cursor

/-- The cursor before the first of some tokens; nodes are numbered from `nextId`. -/
def ofTokens (tokens : List Token) (nextId : NodeId) : Cursor := ⟨tokens, 0, nextId⟩

/-- Whether every token has been read. -/
def isDone (c : Cursor) : Bool := c.rest.isEmpty

/-- Whether the next token has this text. -/
def sees (c : Cursor) (literal : String) : Bool := c.rest.head?.any (·.literal = literal)

/-- The cursor past token `t`, which was followed by `rest`. -/
def past (c : Cursor) (t : Token) (rest : List Token) : Cursor :=
  { c with rest := rest, stop := t.stop }

end Cursor

/-- A grammar rule: reads tokens, and gives a result or an error. -/
abbrev Rule := EStateM ParseError Cursor

namespace Rule

/-- Fails just past the last token that was read. -/
def fail {α : Type} (fault : ParseFault) : Rule α := fun c => .error ⟨fault, c.stop⟩ c

/-- Fails at position `index`. -/
def failAt {α : Type} (fault : ParseFault) (index : Nat) : Rule α := fun c =>
  .error ⟨fault, index⟩ c

/-- Whether the next token has this text; reads nothing. -/
def peek (literal : String) : Rule Bool := fun c => .ok (c.sees literal) c

/-- Whether every token has been read. -/
def atEnd : Rule Bool := fun c => .ok c.isDone c

/-- Reads the next token if it has this text. -/
def accept (literal : String) : Rule Bool := fun c =>
  match c.rest with
  | [] => .ok false c
  | t :: rest => if t.literal = literal then .ok true (c.past t rest) else .ok false c

/-- Reads the next token, which must have this text. -/
def expect (literal what : String) : Rule Unit := do
  unless ← accept literal do fail (.expected what)

/-- Reads a name. -/
def name (what : String) : Rule String := fun c =>
  match c.rest with
  | [] => fail (.expected what) c
  | t :: rest =>
    if t.kind = .identifier then .ok t.literal (c.past t rest) else fail (.expected what) c

/-- Reads an optional type name after a colon. -/
def typeAnnotation : Rule (Option String) := do
  if ← accept ":" then some <$> name "type name" else pure none

/-- Reads an operator of this precedence level, if one comes next. -/
def operator? (level : Level) : Rule (Option BinaryOp) := fun c =>
  match c.rest with
  | [] => .ok none c
  | t :: rest =>
    if t.kind = .operator then
      match BinaryOp.ofSymbol? t.literal with
      | some op => if op.level = level then .ok (some op) (c.past t rest) else .ok none c
      | none => .ok none c
    else .ok none c

/-- Hands out the next node identity. -/
def freshId : Rule NodeId := fun c => .ok c.nextId { c with nextId := c.nextId + 1 }

/-- How many tokens are left.  Rules that repeat or nest take this number as a
bound: each round reads at least one token. -/
def remaining : Rule Nat := fun c => .ok c.rest.length c

end Rule
end Scriptlet
