/-!
# Decimals

A decimal is an integer together with a scale: `⟨n, s⟩` stands for `n · 10⁻ˢ`.
The scale is part of the value, so `2.5` and `2.50` are two decimals that stand for
one number.

Sums and differences are exact.  A quotient is first taken to
`Decimal.precision` significant digits, rounding half up, and then rounded half
to even at the scale of the dividend.

Decimals follow a type of a library that programs compute with and not a standard:
`precision`, `paddingLimit` and `oneScaleLimit` are that type's own choices, and so are
the limits in `Decimal.Compare` and `Decimal.Text`.  The type keeps the scale in a word
of 64 bits.  Here the scale is an integer, and arithmetic never runs over the end of the
word; only text whose scale does not fit is refused when it is read.
-/

namespace Scriptlet

-- powers are the core library's, whichever others are in scope
attribute [local instance (high)] instPowNat

/-- The number `unscaled · 10 ^ (-scale)`, kept with its scale. -/
structure Decimal where
  unscaled : Int
  scale : Int
  deriving DecidableEq, Repr

namespace Decimal

/-- Significant digits that a quotient is computed to. -/
def precision : Nat := 100

/-- How many digits a sum with zero may gain on the other operand. -/
def paddingLimit : Int := 15

/-- The largest scale at which a one is recognised as a factor or divisor. -/
def oneScaleLimit : Int := 38

/-- The integer `n` for which the decimal equals `n · 10 ^ (-scale)`, exact as
long as `scale` is at least that of the decimal. -/
def unscaledAt (a : Decimal) (scale : Int) : Int := a.unscaled * 10 ^ (scale - a.scale).toNat

/-- The same number with `places` more digits after the point. -/
def padded (a : Decimal) (places : Int) : Decimal :=
  ⟨a.unscaledAt (a.scale + places), a.scale + places⟩

/-- Whether the number is zero. -/
def isZero (a : Decimal) : Bool := a.unscaled = 0

/-- Whether the decimal is written as a one with at most `oneScaleLimit` places. -/
def isOne (a : Decimal) : Bool :=
  0 ≤ a.scale ∧ a.scale ≤ oneScaleLimit ∧ a.unscaled = 10 ^ a.scale.toNat

/-- Removes the trailing zeros of `n`: what is left, and how many there were. -/
def trim (n : Nat) : Nat × Nat :=
  if _h : n ≠ 0 ∧ n % 10 = 0 then
    let (m, zeros) := trim (n / 10)
    (m, zeros + 1)
  else (n, 0)
termination_by n

/-- The same number with no trailing zero in the unscaled integer; the scale of
a multiple of ten becomes negative. -/
def normalized (a : Decimal) : Decimal :=
  if a.isZero then ⟨0, 0⟩
  else
    let (m, zeros) := trim a.unscaled.natAbs
    ⟨a.unscaled.sign * m, a.scale - zeros⟩

/-- The sum.  Adding a zero keeps the other operand, with as many of the zero's
places as `paddingLimit` allows; any other sum has the larger scale. -/
def add (a b : Decimal) : Decimal :=
  if b.isZero then a.padded (min paddingLimit (max 0 (b.scale - a.scale)))
  else if a.isZero then b.padded (min paddingLimit (max 0 (a.scale - b.scale)))
  else
    let scale := max a.scale b.scale
    ⟨a.unscaledAt scale + b.unscaledAt scale, scale⟩

/-- The difference, at the larger scale. -/
def sub (a b : Decimal) : Decimal :=
  let scale := max a.scale b.scale
  ⟨a.unscaledAt scale - b.unscaledAt scale, scale⟩

/-- The product, at the sum of the scales; a factor of one leaves the other
factor without trailing zeros. -/
def mul (a b : Decimal) : Decimal :=
  if a.isOne then b.normalized
  else if b.isOne then a.normalized
  else ⟨a.unscaled * b.unscaled, a.scale + b.scale⟩

/-- The decimal digits of a natural number, most significant first. -/
def digits (n : Nat) : List Char := Nat.toDigits 10 n

/-- The least `k` for which `d ≤ n · 10 ^ k`, for positive `n`. -/
def shift (n d : Nat) : Nat :=
  if h : 0 < n ∧ n < d then shift (n * 10) d + 1 else 0
termination_by d - n
decreasing_by omega

/-- Continues a long division by `d` for at most `places` more digits, from a
quotient `q` and a remainder `r`, as long as there is a remainder: the quotient,
the remainder, and how many digits were added. -/
def longDivision (d : Nat) : (places q r : Nat) → Nat × Nat × Nat
  | 0, q, r => (q, r, 0)
  | places + 1, q, r =>
    if r = 0 then (q, r, 0)
    else
      let (q', r', used) := longDivision d places (q * 10 + r * 10 / d) (r * 10 % d)
      (q', r', used + 1)

/-- The quotient of two positive integers as `q · 10 ^ (-k)`, the pair `(q, k)`:
exact if it has at most `precision` digits, otherwise rounded half up there. -/
def quotientDigits (n d : Nat) : Nat × Nat :=
  let k := shift n d
  let q := n * 10 ^ k / d
  let r := n * 10 ^ k % d
  let (q, r, used) := longDivision d (precision - (digits q).length) q r
  (if d ≤ 2 * r then q + 1 else q, k + used)

/-- The quotient to `precision` significant digits. -/
def quotient (a b : Decimal) : Decimal :=
  if a.isZero || b.isOne then a
  else if a.unscaled = b.unscaled then ⟨1, a.scale - b.scale⟩
  else
    let (q, k) := quotientDigits a.unscaled.natAbs b.unscaled.natAbs
    ⟨a.unscaled.sign * b.unscaled.sign * q, a.scale - b.scale + k⟩

/-- The integer nearest to `n / d`, the even one of two. -/
def roundHalfEven (n : Int) (d : Nat) : Int :=
  let q := n.natAbs / d
  let r := n.natAbs % d
  n.sign * (if d < 2 * r ∨ (d = 2 * r ∧ q % 2 = 1) then q + 1 else q : Nat)

/-- The number at another scale, rounded half to even if digits are dropped. -/
def rescaled (a : Decimal) (scale : Int) : Decimal :=
  if a.scale ≤ scale then ⟨a.unscaledAt scale, scale⟩
  else ⟨roundHalfEven a.unscaled (10 ^ (a.scale - scale).toNat), scale⟩

/-- The quotient at the scale of the dividend, or `none` for a zero divisor. -/
def div? (a b : Decimal) : Option Decimal :=
  if b.isZero then none else some ((a.quotient b).rescaled a.scale)

end Decimal
end Scriptlet
