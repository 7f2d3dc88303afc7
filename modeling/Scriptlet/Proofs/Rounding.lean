import Scriptlet.Decimal
import Mathlib.Algebra.Order.Field.Power
import Mathlib.Algebra.Order.Ring.Unbundled.Rat
import Mathlib.Data.Rat.Cast.Order
import Mathlib.Tactic.FieldSimp
import Mathlib.Tactic.Linarith
import Mathlib.Tactic.LinearCombination
import Mathlib.Tactic.Positivity
import Mathlib.Tactic.Ring

/-!
# Rounding, and rounding twice

`NearestEven x z` says that `z` is `x` rounded half to even, without any procedure: no
integer is nearer, and of two equally near ones it is the even one.  There is exactly one
such integer, and the scale of a decimal is changed by taking it (`rescaled_nearest`).

A number may have been rounded before, half up and at some place.  If that place is the one
of the second rounding, or before it, then the second has nothing to do, and the digits that
the first took away are missing.  If it is behind, then the second rounding still goes the
right way unless the first ended on a half and came from the wrong side.  `Misrounds` lists
these cases, and `nearestEven_iff_not_misrounds` says that there are no others.
-/

namespace Scriptlet

/-- `z` is the integer nearest to `x`, and the even one if there are two. -/
structure NearestEven (x : ℚ) (z : ℤ) : Prop where
  nearest : |x - z| ≤ 1 / 2
  even : |x - z| = 1 / 2 → Even z

/-- `z` is the integer nearest to `x`, and the larger one if there are two. -/
structure NearestUp (x : ℚ) (z : ℤ) : Prop where
  low : z - 1 / 2 ≤ x
  high : x < z + 1 / 2

/-- Rounding the positive number `y` half up at `places` digits after the point, and then
half to even at the point, does not give what the second rounding gives by itself. -/
inductive Misrounds (places : ℤ) (y : ℚ) : Prop where
  /-- Digits before the point were rounded away, and not only zeros. -/
  | digitsLost : places < 0 → (∀ k : ℤ, 1 / 2 < |y - k * 10 ^ (-places)|) → Misrounds places y
  /-- Both roundings are at the point, and a half between two integers goes up to an odd
  one. -/
  | halfUp (k : ℤ) : places = 0 → Even k → y = k + 1 / 2 → Misrounds places y
  /-- A number below a half was first rounded to it, and goes up from there. -/
  | fromBelow (k : ℤ) : 0 < places → Odd k → k + 1 / 2 - 10 ^ (-places) / 2 ≤ y →
      y < k + 1 / 2 → Misrounds places y
  /-- A number above a half was first rounded to it, and goes down from there. -/
  | fromAbove (k : ℤ) : 0 < places → Even k → k + 1 / 2 < y →
      y < k + 1 / 2 + 10 ^ (-places) / 2 → Misrounds places y

/-! ### Half to even -/

namespace NearestEven

variable {x : ℚ} {z z' : ℤ}

/-- An integer that is nearer than a half is the nearest. -/
theorem of_lt (h : |x - z| < 1 / 2) : NearestEven x z := ⟨h.le, fun he => absurd he h.ne⟩

/-- **A number has one integer that it is rounded to.** -/
theorem unique (h : NearestEven x z) (h' : NearestEven x z') : z = z' := by
  obtain ⟨hlow, hhigh⟩ := abs_le.1 h.nearest
  obtain ⟨hlow', hhigh'⟩ := abs_le.1 h'.nearest
  have hle : z ≤ z' + 1 := by
    have : (z : ℚ) ≤ z' + 1 := by linarith
    exact_mod_cast this
  have hle' : z' ≤ z + 1 := by
    have : (z' : ℚ) ≤ z + 1 := by linarith
    exact_mod_cast this
  rcases lt_trichotomy z z' with hlt | heq | hgt
  · -- two different candidates are one apart, both at distance one half, and one is odd
    obtain rfl : z' = z + 1 := by omega
    push_cast at hlow' hhigh'
    have hx : x = z + 1 / 2 := by linarith
    have heven : Even z := h.even (by rw [hx]; norm_num)
    have heven' : Even (z + 1) := h'.even (by rw [hx]; push_cast; norm_num)
    exact absurd heven' (by simpa [Int.even_add_one] using heven)
  · exact heq
  · obtain rfl : z = z' + 1 := by omega
    push_cast at hlow hhigh
    have hx : x = z' + 1 / 2 := by linarith
    have heven : Even (z' + 1) := h.even (by rw [hx]; push_cast; norm_num)
    have heven' : Even z' := h'.even (by rw [hx]; norm_num)
    exact absurd heven (by simpa [Int.even_add_one] using heven')

/-- Rounding half to even does not depend on the sign. -/
theorem neg (h : NearestEven x z) : NearestEven (-x) (-z) := by
  have habs : |-x - (-z : ℤ)| = |x - z| := by
    rw [← abs_neg]
    congr 1
    push_cast
    ring
  exact ⟨habs ▸ h.nearest, fun he => (h.even (habs ▸ he)).neg⟩

/-- An integer is its own nearest. -/
theorem of_int (k : ℤ) : NearestEven k k := of_lt (by simp)

end NearestEven

/-- Rounding half to even does not depend on the sign, both ways. -/
theorem nearestEven_neg {x : ℚ} {z : ℤ} : NearestEven (-x) (-z) ↔ NearestEven x z :=
  ⟨fun h => by simpa using h.neg, NearestEven.neg⟩

/-- An integer and a fraction of at most one half. -/
theorem nearestEven_add_left {q : ℤ} {t : ℚ} (hlow : 0 ≤ t)
    (h : t < 1 / 2 ∨ (t = 1 / 2 ∧ Even q)) : NearestEven (q + t) q := by
  have hdist : |(q : ℚ) + t - q| = t := by
    rw [add_sub_cancel_left, abs_of_nonneg hlow]
  rcases h with h | ⟨h, hq⟩
  · exact .of_lt (hdist.trans_lt h)
  · exact ⟨(hdist.trans h).le, fun _ => hq⟩

/-- An integer and a fraction of at least one half. -/
theorem nearestEven_add_right {q : ℤ} {t : ℚ} (hhigh : t ≤ 1)
    (h : 1 / 2 < t ∨ (t = 1 / 2 ∧ ¬ Even q)) : NearestEven (q + t) (q + 1) := by
  have hdist : |(q : ℚ) + t - ((q + 1 : ℤ) : ℚ)| = 1 - t := by
    push_cast
    rw [abs_of_nonpos (by linarith)]
    ring
  rcases h with h | ⟨rfl, hq⟩
  · exact .of_lt (hdist.trans_lt (by linarith))
  · exact ⟨(hdist.trans (by norm_num)).le, fun _ => Int.even_add_one.2 hq⟩

namespace Decimal

/-- The number that a decimal stands for. -/
def toRat (a : Decimal) : ℚ := a.unscaled * 10 ^ (-a.scale)

/-- Natural numbers are rounded to the nearest. -/
theorem roundHalfEven_natCast (n d : ℕ) (hd : 0 < d) :
    NearestEven ((n : ℚ) / d) (roundHalfEven n d) := by
  have hd' : (0 : ℚ) < d := by exact_mod_cast hd
  have hn : (n : ℚ) / d = ((n / d : ℕ) : ℤ) + ((n % d : ℕ) : ℚ) / d := by
    rw [div_eq_iff hd'.ne', add_mul, div_mul_cancel₀ _ hd'.ne']
    rw [Int.cast_natCast]
    exact_mod_cast (Nat.div_add_mod' n d).symm
  have hless : 1 / 2 < ((n % d : ℕ) : ℚ) / d ↔ d < 2 * (n % d) := by
    rw [div_lt_div_iff₀ two_pos hd', one_mul, mul_comm]
    exact_mod_cast Iff.rfl
  have hhalf : ((n % d : ℕ) : ℚ) / d = 1 / 2 ↔ d = 2 * (n % d) := by
    rw [div_eq_div_iff hd'.ne' two_ne_zero, one_mul, mul_comm, eq_comm]
    exact_mod_cast Iff.rfl
  have hodd : ¬ Even ((n / d : ℕ) : ℤ) ↔ n / d % 2 = 1 := by
    rw [Int.even_coe_nat, Nat.not_even_iff]
  have hsign : roundHalfEven n d =
      if d < 2 * (n % d) ∨ (d = 2 * (n % d) ∧ n / d % 2 = 1) then ((n / d : ℕ) : ℤ) + 1
      else ((n / d : ℕ) : ℤ) := by
    rw [roundHalfEven, Int.natAbs_natCast]
    rcases Nat.eq_zero_or_pos n with rfl | hpos
    · simp [hd.ne']
    · rw [Int.sign_eq_one_of_pos (by exact_mod_cast hpos), one_mul]
      split_ifs <;> push_cast <;> rfl
  rw [hn, hsign]
  split_ifs with h
  · refine nearestEven_add_right ?_ ?_
    · rw [div_le_one hd']
      exact_mod_cast (Nat.mod_lt n hd).le
    · rwa [hless, hhalf, hodd]
  · refine nearestEven_add_left (by positivity) ?_
    rw [← hless, ← hhalf, ← hodd, not_or, not_lt, not_and_not_right] at h
    exact h.1.lt_or_eq.imp_right fun he => ⟨he, h.2 he⟩

/-- The sign is taken off before rounding and put back. -/
theorem roundHalfEven_neg (n : ℤ) (d : ℕ) : roundHalfEven (-n) d = -roundHalfEven n d := by
  simp only [roundHalfEven, Int.natAbs_neg, Int.sign_neg, neg_mul]

/-- Quotients are rounded to the nearest, half to even. -/
theorem roundHalfEven_nearest (n : ℤ) (d : ℕ) (hd : 0 < d) :
    NearestEven ((n : ℚ) / d) (roundHalfEven n d) := by
  obtain ⟨m, rfl | rfl⟩ := Int.eq_nat_or_neg n
  · exact roundHalfEven_natCast m d hd
  · rw [roundHalfEven_neg]
    push_cast
    rw [neg_div]
    exact (roundHalfEven_natCast m d hd).neg

/-- **Changing the scale rounds half to even.** -/
theorem rescaled_nearest (a : Decimal) (scale : ℤ) :
    (a.rescaled scale).scale = scale ∧
      NearestEven (a.toRat * 10 ^ scale) (a.rescaled scale).unscaled := by
  have hmul : a.toRat * 10 ^ scale = a.unscaled * 10 ^ (scale - a.scale) := by
    rw [toRat, mul_assoc, ← zpow_add₀ (by norm_num), neg_add_eq_sub]
  rw [hmul, rescaled]
  split_ifs with h
  · refine ⟨rfl, ?_⟩
    have hexact : (a.unscaled : ℚ) * 10 ^ (scale - a.scale) = (a.unscaledAt scale : ℤ) := by
      obtain ⟨k, hk⟩ := Int.eq_ofNat_of_zero_le (sub_nonneg.2 h)
      rw [unscaledAt, hk, Int.toNat_natCast, zpow_natCast]
      push_cast
      rfl
    rw [hexact]
    exact .of_int _
  · refine ⟨rfl, ?_⟩
    obtain ⟨k, hk⟩ := Int.eq_ofNat_of_zero_le (sub_nonneg.2 (le_of_not_ge h))
    have hdiv : (a.unscaled : ℚ) * 10 ^ (scale - a.scale) = a.unscaled / (10 ^ k : ℕ) := by
      rw [← neg_sub, hk, zpow_neg, zpow_natCast, div_eq_mul_inv]
      push_cast
      rfl
    rw [hdiv, hk, Int.toNat_natCast]
    exact roundHalfEven_nearest _ _ (by positivity)

end Decimal

/-! ### Rounding twice -/

/-- There is one nearest integer, half up. -/
theorem NearestUp.unique {x : ℚ} {z z' : ℤ} (h : NearestUp x z) (h' : NearestUp x z') : z = z' := by
  have hlt : (z : ℚ) < z' + 1 := by linarith [h.low, h'.high]
  have hlt' : (z' : ℚ) < z + 1 := by linarith [h'.low, h.high]
  have hle : z < z' + 1 := by exact_mod_cast hlt
  have hle' : z' < z + 1 := by exact_mod_cast hlt'
  omega

/-- An integer is its own nearest. -/
theorem NearestUp.of_int (k : ℤ) : NearestUp k k := ⟨by linarith, by linarith⟩

section Twice

variable {places : ℤ} {y : ℚ} {m z : ℤ}

/-- Rounding half up at some place, in terms of a unit of that place. -/
theorem nearestUp_iff {u : ℚ} (hu : u = 10 ^ (-places)) :
    NearestUp (y * 10 ^ places) m ↔ m * u - u / 2 ≤ y ∧ y < m * u + u / 2 := by
  have hpos : 0 < u := hu ▸ zpow_pos (by norm_num) _
  have hunit : y * 10 ^ places * u = y := by
    rw [hu, mul_assoc, ← zpow_add₀ (by norm_num), add_neg_cancel, zpow_zero, mul_one]
  constructor
  · rintro ⟨hlow, hhigh⟩
    have hlow' := mul_le_mul_of_nonneg_right hlow hpos.le
    have hhigh' := mul_lt_mul_of_pos_right hhigh hpos
    rw [hunit] at hlow' hhigh'
    constructor <;> linarith
  · rintro ⟨hlow, hhigh⟩
    constructor
    · refine le_of_mul_le_mul_right ?_ hpos
      linarith
    · refine lt_of_mul_lt_mul_right ?_ hpos.le
      linarith

/-- The first rounding was before the point. -/
theorem nearestEven_iff_of_neg (hplaces : places < 0) (hm : NearestUp (y * 10 ^ places) m)
    (hz : NearestEven (m * 10 ^ (-places)) z) : NearestEven y z ↔ ¬ Misrounds places y := by
  obtain ⟨j, hj⟩ : ∃ j : ℕ, -places = (j + 1 : ℕ) := ⟨(-places - 1).toNat, by omega⟩
  have hunit : (10 : ℚ) ^ (-places) = ((2 * (5 * 10 ^ j) : ℤ) : ℚ) := by
    rw [hj, zpow_natCast, pow_succ]
    push_cast
    ring
  obtain ⟨hlow, hhigh⟩ := (nearestUp_iff rfl).1 hm
  have hfive : (5 : ℚ) ≤ ((5 * 10 ^ j : ℤ) : ℚ) := by
    exact_mod_cast le_mul_of_one_le_right (by norm_num) (one_le_pow₀ (by norm_num))
  generalize (5 * 10 ^ j : ℤ) = half at *
  rw [hunit] at hz hlow hhigh
  -- the second rounding finds an even integer
  obtain rfl : z = m * (2 * half) := hz.unique (by exact_mod_cast NearestEven.of_int _)
  have heven : Even (m * (2 * half)) := (even_two_mul half).mul_left m
  constructor
  · intro h hmis
    cases hmis with
    | digitsLost _ hfar => exact absurd (hunit ▸ hfar m) (by simpa using h.nearest)
    | halfUp _ hzero => omega
    | fromBelow _ hpos => omega
    | fromAbove _ hpos => omega
  · intro h
    by_contra hnot
    refine h (.digitsLost hplaces fun k => ?_)
    rw [hunit]
    rcases lt_trichotomy k m with hk | rfl | hk
    · have hnext : ((k + 1 : ℤ) : ℚ) * (2 * half : ℤ) ≤ m * (2 * half : ℤ) := by
        refine mul_le_mul_of_nonneg_right (by exact_mod_cast hk) ?_
        push_cast
        linarith
      refine lt_abs.2 (.inl ?_)
      push_cast at *
      linarith
    · by_contra hnear
      exact hnot ⟨by simpa using hnear, fun _ => heven⟩
    · have hnext : ((m + 1 : ℤ) : ℚ) * (2 * half : ℤ) ≤ k * (2 * half : ℤ) := by
        refine mul_le_mul_of_nonneg_right (by exact_mod_cast hk) ?_
        push_cast
        linarith
      refine lt_abs.2 (.inr ?_)
      push_cast at *
      linarith

/-- The first rounding was at the point. -/
theorem nearestEven_iff_of_zero (hm : NearestUp (y * 10 ^ (0 : ℤ)) m)
    (hz : NearestEven (m * 10 ^ (-0 : ℤ)) z) : NearestEven y z ↔ ¬ Misrounds 0 y := by
  rw [zpow_zero, mul_one] at hm
  rw [neg_zero, zpow_zero, mul_one] at hz
  obtain rfl := hz.unique (.of_int m)
  constructor
  · intro h hmis
    cases hmis with
    | halfUp k _ hk hy =>
      obtain rfl : z = k + 1 := hm.unique ⟨by push_cast; linarith, by push_cast; linarith⟩
      refine absurd (h.even ?_) (by simpa [Int.even_add_one] using hk)
      rw [hy]
      push_cast
      norm_num
    | digitsLost hneg => omega
    | fromBelow _ hpos => omega
    | fromAbove _ hpos => omega
  · intro h
    refine ⟨abs_le.2 ⟨by linarith [hm.low], by linarith [hm.high]⟩, fun hhalf => ?_⟩
    -- at distance one half the integer is above, since the first rounding goes up
    have hy : y = (z - 1 : ℤ) + 1 / 2 := by
      rcases (abs_eq (by norm_num)).1 hhalf with hhalf | hhalf
      · linarith [hm.high]
      · push_cast
        linarith
    by_contra hodd
    exact h (.halfUp (z - 1) rfl (Int.even_sub_one.2 hodd) hy)

/-- The first rounding was behind the point: it matters if it ended on a half.  Half a unit of
the point is `half` units of the first rounding. -/
theorem misrounds_iff_of_pos {half : ℤ} (hplaces : 0 < places)
    (hunit : half * (10 : ℚ) ^ (-places) = 1 / 2) (hm : NearestUp (y * 10 ^ places) m) :
    Misrounds places y ↔ ∃ k : ℤ, m = (2 * k + 1) * half ∧
      ((Odd k ∧ y < k + 1 / 2) ∨ (Even k ∧ k + 1 / 2 < y)) := by
  have hpos : (0 : ℚ) < 10 ^ (-places) := zpow_pos (by norm_num) _
  have hmid : ∀ k : ℤ, (((2 * k + 1) * half : ℤ) : ℚ) * 10 ^ (-places) = k + 1 / 2 := by
    intro k
    push_cast
    rw [mul_assoc, hunit]
    ring
  have hreached : ∀ k : ℤ, k + 1 / 2 - (10 : ℚ) ^ (-places) / 2 ≤ y →
      y < k + 1 / 2 + (10 : ℚ) ^ (-places) / 2 → m = (2 * k + 1) * half := fun k hlow hhigh =>
    hm.unique ((nearestUp_iff rfl).2 (by rw [hmid]; exact ⟨hlow, hhigh⟩))
  constructor
  · intro h
    cases h with
    | digitsLost hneg => omega
    | halfUp _ hzero => omega
    | fromBelow k _ hk hlow hhigh =>
      exact ⟨k, hreached k hlow (by linarith), .inl ⟨hk, hhigh⟩⟩
    | fromAbove k _ hk hlow hhigh =>
      exact ⟨k, hreached k (by linarith) hhigh, .inr ⟨hk, hlow⟩⟩
  · rintro ⟨k, rfl, hside⟩
    obtain ⟨hlow, hhigh⟩ := (nearestUp_iff rfl).1 hm
    rw [hmid] at hlow hhigh
    rcases hside with ⟨hk, hside⟩ | ⟨hk, hside⟩
    · exact .fromBelow k hplaces hk hlow hside
    · exact .fromAbove k hplaces hk hside hhigh

end Twice

section Offset

-- `z` and `d` units `u` are what was first found, and half a unit of the point is `half` of them
variable {half d z : ℤ} {u y : ℚ} (hunit : half * u = 1 / 2) (hpos : 0 < u)
  (hlow : z + d * u - u / 2 ≤ y) (hhigh : y < z + d * u + u / 2)
include hunit hpos hlow hhigh

/-- Away from a half both roundings go the same way. -/
theorem nearestEven_of_offset_lt (hd : |d| < half) : NearestEven y z := by
  obtain ⟨hd₁, hd₂⟩ := abs_lt.1 hd
  have hunits₁ : ((-half + 1 : ℤ) : ℚ) * u ≤ d * u :=
    mul_le_mul_of_nonneg_right (by exact_mod_cast hd₁) hpos.le
  have hunits₂ : ((d + 1 : ℤ) : ℚ) * u ≤ half * u :=
    mul_le_mul_of_nonneg_right (by exact_mod_cast hd₂) hpos.le
  push_cast at hunits₁ hunits₂
  exact .of_lt (abs_lt.2 ⟨by linarith, by linarith⟩)

omit hhigh in
/-- From a half above `z` the second rounding goes down. -/
theorem nearestEven_iff_of_offset_half (heven : Even z) (hu : u ≤ 1 / 2) (hd : d = half) :
    NearestEven y z ↔ y ≤ z + 1 / 2 := by
  subst hd
  refine ⟨fun h => by linarith [(abs_le.1 h.nearest).2], fun h => ⟨?_, fun _ => heven⟩⟩
  exact abs_le.2 ⟨by linarith, by linarith⟩

/-- From a half below `z` the second rounding goes up. -/
theorem nearestEven_iff_of_offset_neg_half (heven : Even z) (hu : u ≤ 1 / 2) (hd : d = -half) :
    NearestEven y z ↔ (z - 1 : ℤ) + 1 / 2 ≤ y := by
  subst hd
  push_cast at hlow hhigh ⊢
  refine ⟨fun h => by linarith [(abs_le.1 h.nearest).1], fun h => ⟨?_, fun _ => heven⟩⟩
  exact abs_le.2 ⟨by linarith, by linarith⟩

end Offset

section Twice

variable {places : ℤ} {y : ℚ} {m z : ℤ}

/-- If the first rounding was behind the second, the second goes wrong only in the cases listed. -/
theorem nearestEven_iff_of_pos (hplaces : 0 < places) (hm : NearestUp (y * 10 ^ places) m)
    (hz : NearestEven (m * 10 ^ (-places)) z) : NearestEven y z ↔ ¬ Misrounds places y := by
  obtain ⟨half, hhalf, hunit⟩ : ∃ half : ℤ, 0 < half ∧ half * (10 : ℚ) ^ (-places) = 1 / 2 := by
    obtain ⟨j, rfl⟩ : ∃ j : ℕ, places = (j + 1 : ℕ) := ⟨(places - 1).toNat, by omega⟩
    refine ⟨5 * 10 ^ j, by positivity, ?_⟩
    rw [zpow_neg, zpow_natCast, pow_succ]
    push_cast
    field_simp
    norm_num
  rw [misrounds_iff_of_pos hplaces hunit hm]
  obtain ⟨hlow, hhigh⟩ := (nearestUp_iff rfl).1 hm
  have hpos : (0 : ℚ) < 10 ^ (-places) := zpow_pos (by norm_num) _
  generalize (10 : ℚ) ^ (-places) = u at *
  obtain ⟨d, rfl⟩ : ∃ d, m = 2 * half * z + d := ⟨m - 2 * half * z, by ring⟩
  have hsum : ((2 * half * z + d : ℤ) : ℚ) * u = z + d * u := by
    push_cast
    linear_combination 2 * z * hunit
  rw [hsum] at hz hlow hhigh
  have hdist : |(z : ℚ) + d * u - z| = (|d| : ℤ) * u := by
    rw [add_sub_cancel_left, abs_mul, abs_of_pos hpos, Int.cast_abs]
  have hd : |d| ≤ half := by
    have := hz.nearest
    rw [hdist, ← hunit] at this
    exact_mod_cast le_of_mul_le_mul_right this hpos
  have hu : u ≤ 1 / 2 := by
    rw [← hunit]
    exact le_mul_of_one_le_left hpos.le (by exact_mod_cast hhalf)
  -- the half that was reached, if any, is the one at distance `d` from `z`
  have hreached : ∀ {k : ℤ}, 2 * half * z + d = (2 * k + 1) * half → d = half ∧ k = z ∨
      d = -half ∧ k = z - 1 := by
    intro k hk
    have hodd : d = (2 * (k - z) + 1) * half := by linear_combination hk
    obtain ⟨hd₁, hd₂⟩ := abs_le.1 hd
    rw [hodd, ← neg_one_mul] at hd₁
    rw [hodd] at hd₂
    have hk₁ := le_of_mul_le_mul_right hd₁ hhalf
    have hk₂ := le_of_mul_le_mul_right (hd₂.trans_eq (one_mul half).symm) hhalf
    obtain h | h : k = z ∨ k = z - 1 := by omega
    · exact .inl ⟨by rw [hodd, h]; ring, h⟩
    · exact .inr ⟨by rw [hodd, h]; ring, h⟩
  rcases hd.lt_or_eq with hless | hequal
  · refine iff_of_true (nearestEven_of_offset_lt hunit hpos hlow hhigh hless) ?_
    rintro ⟨k, hk, -⟩
    rcases hreached hk with ⟨rfl, -⟩ | ⟨rfl, -⟩
    · exact absurd (le_abs_self d) hless.not_ge
    · exact absurd (neg_le_abs (-half)) (by rwa [neg_neg, not_le])
  have heven : Even z := hz.even (by rw [hdist, hequal, hunit])
  rcases abs_choice d with hside | hside
  · rw [nearestEven_iff_of_offset_half hunit hpos hlow heven hu (by omega), ← not_lt,
      not_iff_not]
    refine ⟨fun h => ⟨z, by rw [← hequal, hside]; ring, .inr ⟨heven, h⟩⟩, ?_⟩
    rintro ⟨k, hk, hk'⟩
    rcases hreached hk with ⟨-, rfl⟩ | ⟨hd', -⟩
    · exact (hk'.resolve_left fun h => absurd heven (Int.not_even_iff_odd.2 h.1)).2
    · omega
  · have hodd : Odd (z - 1) := heven.sub_odd odd_one
    rw [nearestEven_iff_of_offset_neg_half hunit hpos hlow hhigh heven hu (by omega), ← not_lt,
      not_iff_not]
    refine ⟨fun h => ⟨z - 1, by rw [← hequal, hside]; ring, .inl ⟨hodd, h⟩⟩, ?_⟩
    rintro ⟨k, hk, hk'⟩
    rcases hreached hk with ⟨hd', -⟩ | ⟨-, rfl⟩
    · omega
    · exact (hk'.resolve_right fun h => absurd h.1 (Int.not_even_iff_odd.2 hodd)).2

/-- **When rounding twice is rounding once.** -/
theorem nearestEven_iff_not_misrounds (hm : NearestUp (y * 10 ^ places) m)
    (hz : NearestEven (m * 10 ^ (-places)) z) : NearestEven y z ↔ ¬ Misrounds places y := by
  rcases lt_trichotomy places 0 with hplaces | rfl | hplaces
  · exact nearestEven_iff_of_neg hplaces hm hz
  · exact nearestEven_iff_of_zero hm hz
  · exact nearestEven_iff_of_pos hplaces hm hz

/-- Zero is never rounded wrong. -/
theorem not_misrounds_zero (places : ℤ) : ¬ Misrounds places 0 := by
  have hzero : NearestEven (0 : ℚ) 0 := by exact_mod_cast NearestEven.of_int 0
  refine (nearestEven_iff_not_misrounds (m := 0) ?_ ?_).1 hzero
  · rw [zero_mul]
    exact_mod_cast NearestUp.of_int 0
  · rwa [Int.cast_zero, zero_mul]

end Twice

end Scriptlet
