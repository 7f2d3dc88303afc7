import Scriptlet.Text.Escape

/-!
# Tokens

A token is a piece of program text together with its kind and the number of
characters before it.  Positions count characters, not bytes.
-/

namespace Scriptlet

/-- The six kinds of token.  Keywords are identifiers. -/
inductive TokenKind where
  | identifier
  | integer
  | decimal
  | character
  | string
  | operator
  deriving DecidableEq, Repr

/-- The name under which a kind is shown. -/
def TokenKind.name : TokenKind → String
  | .identifier => "Identifier"
  | .integer => "Integer"
  | .decimal => "Decimal"
  | .character => "Character"
  | .string => "String"
  | .operator => "Operator"

/-- The kind shown under a name. -/
def TokenKind.ofName? (name : String) : Option TokenKind :=
  [.identifier, .integer, .decimal, .character, .string, .operator].find? (·.name = name)

@[simp] theorem TokenKind.ofName?_name (kind : TokenKind) : ofName? kind.name = some kind := by
  cases kind <;> rfl

/-- A piece of program text: its kind, its characters, and the position of the
first of them. -/
structure Token where
  kind : TokenKind
  literal : String
  index : Nat
  deriving DecidableEq, Repr

namespace Token

/-- The position just past the token. -/
def stop (t : Token) : Nat := t.index + t.literal.length

end Token
end Scriptlet
