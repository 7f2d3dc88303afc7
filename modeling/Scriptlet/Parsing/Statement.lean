import Scriptlet.Parsing.Expression

/-!
# Statements

```text
block       = statement*                      before END, ELSE, CASE or DEFAULT
statement   = declaration | if | switch | while | return
            | expression ("=" expression)? ";"
declaration = "LET" name (":" type)? ("=" expression)? ";"
if          = "IF" expression "DO" block ("ELSE" block)? "END"
switch      = "SWITCH" expression ("CASE" expression ":" block)* "DEFAULT" block "END"
while       = "WHILE" expression "DO" block "END"
return      = "RETURN" expression ";"
```

As with expressions, `statementWithin n` reads a statement from at most `n`
tokens, and the statements of an inner block from fewer.
-/

namespace Scriptlet
namespace Rule

/-- Whether the next token ends a block. -/
def peekBlockEnd : Rule Bool := fun c =>
  .ok (["END", "ELSE", "CASE", "DEFAULT"].any c.sees) c

/-- The statements of a block, from at most `n` tokens. -/
def blockWithin (statement : Rule Stmt) : (n : Nat) → Rule (List Stmt)
  | 0 => fail (.expected "END")
  | n + 1 => do
    if ← peekBlockEnd then return []
    if ← atEnd then fail (.expected "END")
    let first ← statement
    return first :: (← blockWithin statement n)

/-- The statements before the end of a block. -/
def blockOver (statement : Rule Stmt) : Rule (List Stmt) := do
  blockWithin statement (← remaining)

/-- An optional value after an equals sign. -/
def initializer : Rule (Option Expr) := do
  if ← accept "=" then some <$> expression else pure none

/-- A local declaration. -/
def declaration : Rule Stmt := do
  expect "LET" "LET"
  let name ← name "variable name"
  let typeName ← typeAnnotation
  let value ← initializer
  expect ";" "';' after declaration"
  return .declaration (← freshId) name typeName value

/-- A conditional statement; `block` reads its branches. -/
def ifOver (block : Rule (List Stmt)) : Rule Stmt := do
  expect "IF" "IF"
  let condition ← expression
  expect "DO" "DO after IF condition"
  let thenBody ← block
  let elseBody ← if ← accept "ELSE" then block else pure []
  expect "END" "END to close IF"
  return .ifElse condition thenBody elseBody

/-- One arm of a `SWITCH`. -/
def caseOver (block : Rule (List Stmt)) : Rule Case := do
  if ← accept "CASE" then
    let value ← expression
    expect ":" "':' after CASE value"
    return .mk (some value) (← block)
  expect "DEFAULT" "DEFAULT in SWITCH"
  return .mk none (← block)

/-- The arms of a `SWITCH`, from at most `n` tokens: the last one is the first
that does not start with `CASE`. -/
def casesWithin (block : Rule (List Stmt)) : (n : Nat) → Rule (List Case)
  | 0 => do return [← caseOver block]
  | n + 1 => do
    if ← peek "CASE" then
      let first ← caseOver block
      return first :: (← casesWithin block n)
    return [← caseOver block]

/-- A `SWITCH` statement; `block` reads the bodies of its arms. -/
def switchOver (block : Rule (List Stmt)) : Rule Stmt := do
  expect "SWITCH" "SWITCH"
  let condition ← expression
  let cases ← casesWithin block (← remaining)
  expect "END" "END to close SWITCH"
  return .switch condition cases

/-- A loop; `block` reads its body. -/
def whileOver (block : Rule (List Stmt)) : Rule Stmt := do
  expect "WHILE" "WHILE"
  let condition ← expression
  expect "DO" "DO after WHILE condition"
  let body ← block
  expect "END" "END to close WHILE"
  return .whileDo condition body

/-- A `RETURN` statement. -/
def returnStatement : Rule Stmt := do
  expect "RETURN" "RETURN"
  let value ← expression
  expect ";" "';' after RETURN value"
  return .returnWith value

/-- An assignment, or an expression used as a statement. -/
def expressionStatement : Rule Stmt := do
  let receiver ← expression
  if ← accept "=" then
    let value ← expression
    expect ";" "';' after assignment"
    return .assignment receiver value
  expect ";" "';' after expression"
  return .expression receiver

/-- A statement; `block` reads the blocks inside it. -/
def statementOver (block : Rule (List Stmt)) : Rule Stmt := do
  if ← peek "LET" then declaration
  else if ← peek "IF" then ifOver block
  else if ← peek "SWITCH" then switchOver block
  else if ← peek "WHILE" then whileOver block
  else if ← peek "RETURN" then returnStatement
  else expressionStatement

/-- A statement of at most `n` tokens. -/
def statementWithin : (n : Nat) → Rule Stmt
  | 0 => fail (.expected "expression")
  | n + 1 => statementOver (blockOver (statementWithin n))

/-- A statement. -/
def statement : Rule Stmt := do statementWithin (← remaining)

/-- The statements of a block. -/
def block : Rule (List Stmt) := do blockOver (statementWithin (← remaining))

/-- A conditional statement. -/
def ifStatement : Rule Stmt := ifOver block

/-- A `SWITCH` statement. -/
def switchStatement : Rule Stmt := switchOver block

/-- One arm of a `SWITCH`. -/
def caseArm : Rule Case := caseOver block

/-- A loop. -/
def whileStatement : Rule Stmt := whileOver block

end Rule
end Scriptlet
