import Scriptlet.Parsing.Statement

/-!
# Programs

```text
source   = (global | function)*
global   = "LIST" name ":" type "=" "[" elements "]" ";"
         | "VAR" name (":" type)? ("=" expression)? ";"
         | "VAL" name (":" type)? "=" expression ";"
function = "FUN" name "(" (name ":" type ("," name ":" type)*)? ")" (":" type)?
           "DO" block "END"
```

Globals and functions may be mixed; a `Source` keeps each in its own order.
-/

namespace Scriptlet
namespace Rule

/-- A list, after the word `LIST`. -/
def listGlobal : Rule GlobalDecl := do
  let name ← name "list name"
  expect ":" "':' after list name"
  let typeName ← Rule.name "list element type"
  expect "=" "'=' in list declaration"
  expect "[" "'[' to open list literal"
  let elements ← separated expression "]" "']' to close list literal"
  let listId ← freshId
  return ⟨← freshId, name, some typeName, true, some (.list listId elements)⟩

/-- A variable, after the word `VAR`. -/
def mutableGlobal : Rule GlobalDecl := do
  let name ← name "variable name"
  let typeName ← typeAnnotation
  let value ← initializer
  return ⟨← freshId, name, typeName, true, value⟩

/-- A constant, after the word `VAL`. -/
def immutableGlobal : Rule GlobalDecl := do
  let name ← name "value name"
  let typeName ← typeAnnotation
  expect "=" "'=' in immutable declaration"
  let value ← expression
  return ⟨← freshId, name, typeName, false, some value⟩

/-- A global without its semicolon. -/
def globalBody : Rule GlobalDecl := do
  if ← accept "LIST" then listGlobal
  else if ← accept "VAR" then mutableGlobal
  else if ← accept "VAL" then immutableGlobal
  else fail (.expected "LIST, VAL, or VAR")

/-- A global. -/
def global : Rule GlobalDecl := do
  let decl ← globalBody
  expect ";" "';' after global"
  return decl

/-- Parameters and their types up to and including the closing parenthesis; at
least one, and at most `n` tokens. -/
def parametersWithin : (n : Nat) → Rule (List (String × String))
  | 0 => fail (.expected "parameter name")
  | n + 1 => do
    let parameter ← name "parameter name"
    expect ":" "':' after parameter name"
    let typeName ← name "parameter type"
    if ← accept ")" then return [(parameter, typeName)]
    expect "," "',' or ')' in parameter list"
    return (parameter, typeName) :: (← parametersWithin n)

/-- A function. -/
def function : Rule FunctionDecl := do
  expect "FUN" "FUN"
  let name ← name "function name"
  expect "(" "'(' after function name"
  let parameters ← if ← accept ")" then pure [] else parametersWithin (← remaining)
  let returnTypeName ← typeAnnotation
  expect "DO" "DO"
  let body ← block
  expect "END" "END"
  return ⟨← freshId, name, parameters.map Prod.fst, parameters.map Prod.snd, returnTypeName, body⟩

/-- Globals and functions of a program, from at most `n` tokens. -/
def sourceWithin : (n : Nat) → Rule Source
  | 0 => pure ⟨[], []⟩
  | n + 1 => do
    if ← atEnd then return ⟨[], []⟩
    if (← peek "LIST") || (← peek "VAR") || (← peek "VAL") then
      let first ← global
      let source ← sourceWithin n
      return { source with globals := first :: source.globals }
    if ← peek "FUN" then
      let first ← function
      let source ← sourceWithin n
      return { source with functions := first :: source.functions }
    fail (.expected "LIST, VAL, VAR, or FUN")

/-- A whole program. -/
def source : Rule Source := do sourceWithin (← remaining)

end Rule
end Scriptlet
