import Scriptlet.Checking.Annotations
import Scriptlet.Decimal.Text
import Scriptlet.Text.Escape

/-!
# Expressions in Java

Operators keep their symbols and their operands' order, groups their parentheses.
A power becomes a call of `Math.pow`, cast to `int` if it is an integer, and a
list becomes an array initializer.  Names are those recorded by checking; a node
without what it needs has no Java text.
-/

namespace Scriptlet

/-- What checking did not record. -/
inductive JavaError where
  /-- The type of a node described in words. -/
  | missingType (node : String)
  | missingVariable (name : String)
  | missingFunction (name : String)
  deriving DecidableEq, Repr

/-- The wording of an error. -/
def JavaError.message : JavaError → String
  | missingType node => s!"Missing type annotation for {node}"
  | missingVariable name => s!"Missing variable binding for '{name}'"
  | missingFunction name => s!"Missing function binding for '{name}'"

namespace Java

/-- The text of a literal. -/
def literal : Literal → String
  | .nil => "null"
  | .boolean b => if b then "true" else "false"
  | .integer n => toString n
  | .decimal d => d.toText
  | .character c => String.ofList (Escape.encode Escape.singleQuote [c])
  | .string s => String.ofList (Escape.encode Escape.doubleQuote s.toList)

/-- The variable recorded for a node. -/
def variableOf (a : Annotations) (id : NodeId) (name : String) :
    Except JavaError (Variable Unit) :=
  match a.vars.find? id with
  | some v => .ok v
  | none => .error (.missingVariable name)

/-- The function recorded for a node. -/
def functionOf (a : Annotations) (id : NodeId) (name : String) :
    Except JavaError (Routine Unit) :=
  match a.functions.find? id with
  | some r => .ok r
  | none => .error (.missingFunction name)

/-- The type recorded for a power. -/
def powerType (a : Annotations) (id : NodeId) : Except JavaError Ty :=
  match a.types.find? id with
  | some ty => .ok ty
  | none => .error (.missingType "power expression")

/-- A power of two texts. -/
def power (ty : Ty) (left right : String) : String :=
  let call := s!"Math.pow({left}, {right})"
  if ty = .integer then s!"(int) {call}" else call

mutual

/-- The text of an expression. -/
def expression (a : Annotations) : Expr → Except JavaError String
  | .literal _ value => .ok (literal value)
  | .group _ inner => do return s!"({← expression a inner})"
  | .binary id op left right =>
    if op = .power then do
      let ty ← powerType a id
      let l ← expression a left
      let r ← expression a right
      return power ty l r
    else do
      let l ← expression a left
      let r ← expression a right
      return s!"{l} {op.symbol} {r}"
  | .access id name => do return (← variableOf a id name).javaName
  | .element id name offset => do
    let v ← variableOf a id name
    return s!"{v.javaName}[{← expression a offset}]"
  | .call id name args => do
    let r ← functionOf a id name
    let texts ← expressions a args
    return r.javaName ++ "(" ++ ", ".intercalate texts ++ ")"
  | .list _ es => do
    let texts ← expressions a es
    return "\x7b" ++ ", ".intercalate texts ++ "\x7d"

/-- The texts of expressions, from left to right. -/
def expressions (a : Annotations) : List Expr → Except JavaError (List String)
  | [] => .ok []
  | e :: es => do
    let text ← expression a e
    return text :: (← expressions a es)

end

end Java
end Scriptlet
