import Scriptlet.Evaluation.Error
import Scriptlet.Value

/-!
# Operators on values

What an operator answers for two values.  Both must be of one kind: Booleans for
`&&` and `||`, integers, decimals, characters or strings for `<` and `>`, numbers
for arithmetic, also strings for `+`, and integers for `^`.  Only `==` and `!=`
take any two values.

In a run `&&` and `||` evaluate their second operand only if they need it, so they
are applied here to values only.
-/

namespace Scriptlet
namespace Operator

-- powers are the core library's, whichever others are in scope
attribute [local instance (high)] instPowNat

/-- The first exponent that is too large. -/
def exponentBound : Int := 2 ^ (32 : Nat)

/-- Whether the first of two values of one ordered kind is the smaller. -/
def less? : Value → Value → Option Bool
  | .integer a, .integer b => some (a < b)
  | .decimal a, .decimal b => some (a.lt b)
  | .character a, .character b => some (a < b)
  | .string a, .string b => some (a < b)
  | _, _ => none

/-- An integer raised to an integer power. -/
def power (base exponent : Int) : Except EvalError Object :=
  if 0 ≤ exponent ∧ exponent < exponentBound then .ok (.integer (base ^ exponent.toNat))
  else .error (.invalidExponent exponent)

/-- The quotient of two integers, toward zero. -/
def integerQuotient (a b : Int) : Except EvalError Object :=
  if b = 0 then .error .divisionByZero else .ok (.integer (a.tdiv b))

/-- The quotient of two decimals. -/
def decimalQuotient (a b : Decimal) : Except EvalError Object :=
  match a.div? b with
  | some q => .ok (.decimal q)
  | none => .error .divisionByZero

/-- Applies an operator to two values; `h` holds the elements of lists. -/
def apply (h : Heap) (op : BinaryOp) (left right : Value) : Except EvalError Object :=
  let invalid : Except EvalError Object :=
    .error (.invalidOperands op left.shapeName right.shapeName)
  match op with
  | .and =>
    match left, right with
    | .boolean a, .boolean b => .ok (.boolean (a && b))
    | _, _ => invalid
  | .or =>
    match left, right with
    | .boolean a, .boolean b => .ok (.boolean (a || b))
    | _, _ => invalid
  | .less =>
    match less? left right with
    | some b => .ok (.boolean b)
    | none => invalid
  | .greater =>
    match less? right left with
    | some b => .ok (.boolean b)
    | none => invalid
  | .equal => .ok (.boolean (h.eqv left right))
  | .notEqual => .ok (.boolean (!h.eqv left right))
  | .add =>
    match left, right with
    | .string a, .string b => .ok (.string (a ++ b))
    | .integer a, .integer b => .ok (.integer (a + b))
    | .decimal a, .decimal b => .ok (.decimal (a.add b))
    | _, _ => invalid
  | .subtract =>
    match left, right with
    | .integer a, .integer b => .ok (.integer (a - b))
    | .decimal a, .decimal b => .ok (.decimal (a.sub b))
    | _, _ => invalid
  | .multiply =>
    match left, right with
    | .integer a, .integer b => .ok (.integer (a * b))
    | .decimal a, .decimal b => .ok (.decimal (a.mul b))
    | _, _ => invalid
  | .divide =>
    match left, right with
    | .integer a, .integer b => integerQuotient a b
    | .decimal a, .decimal b => decimalQuotient a b
    | _, _ => invalid
  | .power =>
    match left, right with
    | .integer a, .integer b => power a b
    | _, _ => invalid

/-! ### Errors -/

theorem integerQuotient_error {x y : Int} {e : EvalError} (hq : integerQuotient x y = .error e) :
    e = .divisionByZero := by
  unfold integerQuotient at hq
  split at hq <;> cases hq
  rfl

theorem decimalQuotient_error {x y : Decimal} {e : EvalError}
    (hq : decimalQuotient x y = .error e) : e = .divisionByZero := by
  unfold decimalQuotient at hq
  split at hq <;> cases hq
  rfl

theorem power_error {x y : Int} {e : EvalError} (hp : power x y = .error e) :
    e = .invalidExponent y := by
  unfold power at hp
  split at hp <;> cases hp
  rfl

/-- The only errors of operators. -/
theorem apply_error {h : Heap} {op : BinaryOp} {a b : Value} {e : EvalError}
    (happly : apply h op a b = .error e) :
    e = .invalidOperands op a.shapeName b.shapeName ∨ e = .divisionByZero ∨
      ∃ exponent, e = .invalidExponent exponent := by
  cases op <;> simp only [apply] at happly
  case divide =>
    split at happly
    · exact .inr (.inl (integerQuotient_error happly))
    · exact .inr (.inl (decimalQuotient_error happly))
    · cases happly
      exact .inl rfl
  case power =>
    split at happly
    · exact .inr (.inr ⟨_, power_error happly⟩)
    · cases happly
      exact .inl rfl
  case equal | notEqual => cases happly
  all_goals
    split at happly <;> cases happly
    exact .inl rfl

end Operator
end Scriptlet
