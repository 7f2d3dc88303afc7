import Scriptlet.Decimal

/-!
# Comparing decimals

`Decimal.lt` is the order of the numbers that decimals stand for.

`Decimal.eqv` compares unscaled integers: at one scale they must agree, and at two
scales the one at the larger scale must be the other times a power of ten.  Up to
`wordPlaces` places that product is formed limb by limb, in base `2 ^ 32`, where a
limb times the power and the carry into it share a word of 64 bits.  A limb whose
product with the power needs more than a word sends the comparison to exact
arithmetic.  A carry that runs over the end of the word is lost; it takes a limb
just below `2 ^ 64 / 10 ^ 10` and ten places to get there.  Everywhere else equal
decimals are those that stand for one number.

Both first compare numbers of binary digits, so that decimals with scales far apart
are compared without their power of ten.

The limbs, `wordPlaces` and the carry that is lost are those of the library type that
decimals follow.  A difference of two scales is an integer here, and a word of 64 bits in
that type.
-/

namespace Scriptlet
namespace Decimal

-- powers are the core library's, whichever others are in scope
attribute [local instance (high)] instPowNat

/-- How many binary digits a number has. -/
def bitLength (n : Nat) : Nat := if n = 0 then 0 else n.log2 + 1

/-- Whether `n` has too few binary digits to be `m · 10 ^ places`, for positive `m`.
Ten is more than `2 ^ 3`, which settles most cases without the power. -/
def isShort (n m places : Nat) : Bool :=
  bitLength n < bitLength m + 3 * places || bitLength n < bitLength m + (10 ^ places).log2

/-- The base of limbs. -/
def limbBase : Nat := 2 ^ (32 : Nat)

/-- How many values a word has. -/
def wordBase : Nat := 2 ^ (64 : Nat)

/-- How many places a power of ten may have to be a word. -/
def wordPlaces : Nat := 20

/-- The digits of a number in base `limbBase`, least significant first. -/
def limbs (n : Nat) : List Nat :=
  if _h : n = 0 then [] else n % limbBase :: limbs (n / limbBase)
termination_by n
decreasing_by exact Nat.div_lt_self (Nat.pos_of_ne_zero _h) (by decide)

/-- Whether the limbs `as` are those of `bs` times `factor`, plus `carry`, in words;
`none` if a limb of `bs` times `factor` does not fit a word. -/
def isProduct? (factor : Nat) : (carry : Nat) → (as bs : List Nat) → Option Bool
  | carry, a :: as, b :: bs =>
    if wordBase ≤ b * factor then none
    else
      let word := (b * factor + carry) % wordBase
      if a = word % limbBase then isProduct? factor (word / limbBase) as bs else some false
  | _, [], _ :: _ => some false
  | carry, a :: as, [] => if a = carry then isProduct? factor 0 as [] else some false
  | carry, [], [] => some (carry = 0)

/-- Whether `n` is found to be `m · 10 ^ places`, for positive `n` and `m`. -/
def isScaled (n m places : Nat) : Bool :=
  if isShort n m places then false
  else if places < wordPlaces then
    (isProduct? (10 ^ places) 0 (limbs n) (limbs m)).getD (n = m * 10 ^ places)
  else n = m * 10 ^ places

/-- Equality of decimals, whatever the scales. -/
def eqv (a b : Decimal) : Bool :=
  if a.scale = b.scale then a.unscaled = b.unscaled
  else if a.unscaled.sign ≠ b.unscaled.sign then false
  else if a.isZero then true
  else if b.scale < a.scale then
    isScaled a.unscaled.natAbs b.unscaled.natAbs (a.scale - b.scale).toNat
  else isScaled b.unscaled.natAbs a.unscaled.natAbs (b.scale - a.scale).toNat

@[simp] theorem eqv_self (a : Decimal) : a.eqv a = true := by
  simp [eqv]

/-- The order of `n` and `m · 10 ^ places`, for positive `m`. -/
def compareScaled (n m places : Nat) : Ordering :=
  if isShort n m places then .lt else compare n (m * 10 ^ places)

/-- The order of the absolute values of two decimals other than zero. -/
def compareMagnitudes (a b : Decimal) : Ordering :=
  if b.scale ≤ a.scale then
    compareScaled a.unscaled.natAbs b.unscaled.natAbs (a.scale - b.scale).toNat
  else (compareScaled b.unscaled.natAbs a.unscaled.natAbs (b.scale - a.scale).toNat).swap

/-- Order of the numbers, whatever the scales. -/
def lt (a b : Decimal) : Bool :=
  if a.unscaled.sign ≠ b.unscaled.sign then a.unscaled.sign < b.unscaled.sign
  else if a.isZero then false
  else if 0 < a.unscaled then a.compareMagnitudes b = .lt
  else b.compareMagnitudes a = .lt

/-- Whether the nearest double is finite: the number is smaller than the largest
double and half of its last place, `2¹⁰²⁴ - 2⁹⁷⁰`. -/
def isFiniteDouble (a : Decimal) : Bool :=
  (⟨a.unscaled.natAbs, a.scale⟩ : Decimal).lt ⟨2 ^ (1024 : Nat) - 2 ^ (970 : Nat), 0⟩

end Decimal
end Scriptlet
