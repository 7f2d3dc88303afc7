import Scriptlet.Decimal

/-!
# Text of numbers

Reading an integer: an optional sign, a digit, and then digits, with `_` anywhere
among them.  Reading a decimal: the text of an integer with at most one dot put into
it, and then optionally `e` or `E` and a power of ten to multiply by.  The scale is
the number of characters after the dot other than `_`, less the power, and has to
fit into 64 bits with a sign.

Writing a decimal with digits `x` and scale `s`:

| condition              | text                                             |
|------------------------|--------------------------------------------------|
| the number is zero     | `0`                                              |
| `s - length x > 5`     | scientific: one digit, the rest, `E` and exponent |
| `s < -15`              | `x`, then `e+` and `-s`                          |
| `s ≤ 0`                | `x` followed by `-s` zeros                       |
| otherwise              | `s` digits after the dot, at least one before it |

Both notations, with `leadingZeroLimit` and `trailingZeroLimit`, are those of the library
type that decimals follow, and so is the range of a scale that is read (`isScale`).
-/

namespace Scriptlet

-- powers are the core library's, whichever others are in scope
attribute [local instance (high)] instPowNat

/-- The value of a digit. -/
def digitValue (c : Char) : Nat := c.toNat - '0'.toNat

/-- The number that some digits denote. -/
def natOfDigits (cs : List Char) : Nat := cs.foldl (fun n c => 10 * n + digitValue c) 0

/-- The mark that may stand among digits to group them. -/
def groupMark : Char := '_'

/-- The number that a text of digits and group marks denotes; it must start with a
digit. -/
def groupedNat? : List Char → Option Nat
  | [] => none
  | c :: cs =>
    if c.isDigit ∧ cs.all (fun d => d.isDigit || d = groupMark) then
      some (natOfDigits (c :: cs.filter (· ≠ groupMark)))
    else none

/-- Splits a sign off a text: the factor it stands for, and the rest. -/
def splitSign : List Char → Int × List Char
  | '-' :: cs => (-1, cs)
  | '+' :: cs => (1, cs)
  | cs => (1, cs)

/-- The integer that some characters denote. -/
def signedInt? (cs : List Char) : Option Int :=
  let (sign, digits) := splitSign cs
  (groupedNat? digits).map fun n => sign * n

/-- The integer that a text denotes. -/
def integerOfText? (text : String) : Option Int := signedInt? text.toList

namespace Decimal

/-- Whether a character announces a power of ten. -/
def isPowerMark (c : Char) : Bool := c = 'e' || c = 'E'

/-- The power of ten that ends a decimal: nothing, or a mark, an optional sign and
digits. -/
def power? : List Char → Option Int
  | [] => some 0
  | _ :: cs =>
    let (sign, digits) := splitSign cs
    if digits ≠ [] ∧ digits.all Char.isDigit then some (sign * natOfDigits digits) else none

/-- Whether a scale fits into 64 bits with a sign. -/
def isScale (scale : Int) : Bool := -2 ^ (63 : Nat) ≤ scale ∧ scale < 2 ^ (63 : Nat)

/-- The decimal that a text denotes. -/
def ofText? (text : String) : Option Decimal := do
  let base := text.toList.takeWhile (!isPowerMark ·)
  let power ← power? (text.toList.dropWhile (!isPowerMark ·))
  let whole := base.takeWhile (· ≠ '.')
  let places := (base.dropWhile (· ≠ '.')).drop 1
  let unscaled ← signedInt? (whole ++ places)
  let scale : Int := (places.filter (· ≠ groupMark)).length - power
  if isScale scale then some ⟨unscaled, scale⟩ else none

/-- Leading zeros that a decimal below one may show before it turns to scientific
notation. -/
def leadingZeroLimit : Int := 5

/-- Trailing zeros that a large decimal may show before they are counted. -/
def trailingZeroLimit : Int := 15

/-- The digits of a nonzero number with scale `s`. -/
def magnitudeText (x : List Char) (s : Int) : List Char :=
  let n : Int := x.length
  if leadingZeroLimit < s - n ∧ 0 < s then
    match x with
    | [] => []
    | [d] => d :: 'E' :: (toString (n - 1 - s)).toList
    | d :: rest => d :: '.' :: rest ++ 'E' :: (toString (n - 1 - s)).toList
  else if s < -trailingZeroLimit then x ++ "e+".toList ++ (toString (-s)).toList
  else if s ≤ 0 then x ++ List.replicate (-s).toNat '0'
  else
    let places := s.toNat
    let padded := List.replicate (places + 1 - x.length) '0' ++ x
    padded.take (padded.length - places) ++ '.' :: padded.drop (padded.length - places)

/-- The text of a decimal. -/
def toText (a : Decimal) : String :=
  if a.isZero then "0"
  else
    let text := String.ofList (magnitudeText (digits a.unscaled.natAbs) a.scale)
    if a.unscaled < 0 then "-" ++ text else text

end Decimal
end Scriptlet
