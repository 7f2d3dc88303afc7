import Scriptlet.Decimal.Text
import Scriptlet.Parsing.Cursor

/-!
# Expressions

```text
logical        = comparison (("&&" | "||") comparison)*
comparison     = additive (("<" | ">" | "==" | "!=") additive)*
additive       = multiplicative (("+" | "-") multiplicative)*
multiplicative = primary (("*" | "/" | "^") primary)*
primary        = "NIL" | "TRUE" | "FALSE" | literal | "(" logical ")"
               | name | name "(" arguments ")" | name "[" logical "]"
```

All levels associate to the left.  A node gets its identity after its operands.

`expressionWithin n` reads an expression from at most `n` tokens.  Inside
parentheses, arguments and offsets at least one token has been read, so the bound
goes down by one; with no token left there is no expression.
-/

namespace Scriptlet
namespace Rule

/-- A literal node. -/
def literal (value : Literal) : Rule Expr := do
  return .literal (← freshId) value

/-- The literal that a token denotes, by its kind. -/
def literalValue (t : Token) : Except ParseFault Literal :=
  let content := Escape.decode (Escape.unquote t.literal.toList)
  match t.kind with
  | .integer =>
    match integerOfText? t.literal with
    | some value => .ok (.integer value)
    | none => .error .invalidInteger
  | .decimal =>
    match Decimal.ofText? t.literal with
    | some value => .ok (.decimal value)
    | none => .error .invalidDecimal
  | .character =>
    match content with
    | [value] => .ok (.character value)
    | _ => .error .invalidCharacter
  | .string => .ok (.string (String.ofList content))
  | .identifier | .operator => .error .invalidExpression

/-- Expressions with commas between them, up to and including `close`; at least
one, and at most `n` tokens. -/
def commaSeparated (inner : Rule Expr) (close what : String) : (n : Nat) → Rule (List Expr)
  | 0 => fail (.expected "expression")
  | n + 1 => do
    let value ← inner
    if ← accept close then return [value]
    unless ← accept "," do fail (.expected what)
    if ← peek close then fail .trailingComma
    return value :: (← commaSeparated inner close what n)

/-- Expressions with commas between them, up to and including `close`. -/
def separated (inner : Rule Expr) (close what : String) : Rule (List Expr) := do
  if ← accept close then return []
  commaSeparated inner close what (← remaining)

/-- What may follow a name: arguments, an offset, or nothing. -/
def nameTail (inner : Rule Expr) (name : String) : Rule Expr := do
  if ← accept "(" then
    let arguments ← separated inner ")" "')' after arguments"
    return .call (← freshId) name arguments
  if ← accept "[" then
    let offset ← inner
    expect "]" "']' after list offset"
    return .element (← freshId) name offset
  return .access (← freshId) name

/-- A primary expression that is recognised by the kind of its first token.  A
token that denotes no literal has been read when the rule fails, an operator has
not. -/
def primaryByKind (inner : Rule Expr) : Rule Expr := fun c =>
  match c.rest with
  | [] => fail (.expected "expression") c
  | t :: rest =>
    match t.kind with
    | .identifier => nameTail inner t.literal (c.past t rest)
    | .operator => failAt .invalidExpression t.index c
    | _ =>
      match literalValue t with
      | .ok value => literal value (c.past t rest)
      | .error fault => failAt fault t.index (c.past t rest)

/-- A primary expression; `inner` reads the expressions inside it. -/
def primaryOver (inner : Rule Expr) : Rule Expr := do
  if ← accept "NIL" then return ← literal .nil
  if ← accept "TRUE" then return ← literal (.boolean true)
  if ← accept "FALSE" then return ← literal (.boolean false)
  if ← accept "(" then
    let value ← inner
    expect ")" "closing parenthesis"
    return .group (← freshId) value
  primaryByKind inner

/-- Continues a chain of operators of one level after its first operands `left`,
reading at most `n` tokens. -/
def chainTail (level : Level) (operand : Rule Expr) : (n : Nat) → (left : Expr) → Rule Expr
  | 0, left => pure left
  | n + 1, left => do
    match ← operator? level with
    | none => return left
    | some op =>
      let right ← operand
      let id ← freshId
      chainTail level operand n (.binary id op left right)

/-- Operands joined by operators of one level, grouped to the left. -/
def chain (level : Level) (operand : Rule Expr) : Rule Expr := do
  let left ← operand
  chainTail level operand (← remaining) left

/-- A product, given the rule for primary expressions. -/
def multiplicativeOver (primary : Rule Expr) : Rule Expr := chain .multiplicative primary

/-- A sum, given the rule for primary expressions. -/
def additiveOver (primary : Rule Expr) : Rule Expr :=
  chain .additive (multiplicativeOver primary)

/-- A comparison, given the rule for primary expressions. -/
def comparisonOver (primary : Rule Expr) : Rule Expr :=
  chain .comparison (additiveOver primary)

/-- A logical expression, given the rule for primary expressions. -/
def logicalOver (primary : Rule Expr) : Rule Expr := chain .logical (comparisonOver primary)

/-- An expression of at most `n` tokens. -/
def expressionWithin : (n : Nat) → Rule Expr
  | 0 => fail (.expected "expression")
  | n + 1 => logicalOver (primaryOver (expressionWithin n))

/-- An expression. -/
def expression : Rule Expr := do expressionWithin (← remaining)

/-- A primary expression. -/
def primary : Rule Expr := do primaryOver (expressionWithin (← remaining))

/-- A product of primary expressions. -/
def multiplicative : Rule Expr := multiplicativeOver primary

/-- A sum of products. -/
def additive : Rule Expr := additiveOver primary

/-- A comparison of sums. -/
def comparison : Rule Expr := comparisonOver primary

/-- Comparisons joined by `&&` and `||`. -/
def logical : Rule Expr := logicalOver primary

end Rule
end Scriptlet
