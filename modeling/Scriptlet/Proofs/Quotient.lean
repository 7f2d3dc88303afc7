import Scriptlet.Evaluation.Operator
import Scriptlet.Proofs.Rounding

/-!
# Quotients of decimals

A quotient is computed in two steps.  Long division finds it to `precision` digits, or to
the last digit of the integer quotient if that has more, and rounds half up there
(`quotientDigits_spec`).  The result is then rounded half to even at the scale of the
dividend.

So a quotient is rounded twice, and it is the exact quotient rounded half to even if and
only if the first rounding does no harm (`decimal_quotient_rounded_iff`).  It does, for
instance, if the quotient has more than `precision` digits up to its last place.
-/

namespace Scriptlet
namespace Decimal

/-- How many digits after the point the quotient of two positive integers is computed to,
unless it ends before. -/
def quotientPlaces (n d : ℕ) : ℕ := shift n (10 ^ (precision - 1) * d)

/-- How many digits after the last one of `a` the quotient of `a` and `b` is computed to; less
than zero if that is before it. -/
def spareDigits (a b : Decimal) : ℤ :=
  quotientPlaces a.unscaled.natAbs b.unscaled.natAbs - b.scale

/-- The quotient of `a` and `b`, counted in units of the last place of `a`. -/
def quotientUnits (a b : Decimal) : ℚ := a.toRat / b.toRat * 10 ^ a.scale

/-! ### Long division -/

/-- The shift is the least one that makes the dividend reach the divisor. -/
theorem shift_spec {n : ℕ} (hn : 0 < n) (d : ℕ) :
    d ≤ n * 10 ^ shift n d ∧ ∀ k < shift n d, n * 10 ^ k < d := by
  fun_induction shift n d with
  | case1 n h ih =>
    obtain ⟨hle, hlt⟩ := ih (by omega)
    refine ⟨by rw [pow_succ']; rwa [mul_assoc] at hle, fun k hk => ?_⟩
    cases k with
    | zero => simpa using h.2
    | succ k =>
      have := hlt k (by omega)
      rwa [pow_succ', ← mul_assoc]
  | case2 n h => exact ⟨by simp; omega, fun k hk => absurd hk (Nat.not_lt_zero k)⟩

/-- The least shift is recognised by the one before it. -/
theorem shift_eq {n d k : ℕ} (hn : 0 < n) (hle : d ≤ n * 10 ^ k)
    (hlt : ∀ j, j + 1 = k → n * 10 ^ j < d) : shift n d = k := by
  obtain ⟨hle', hlt'⟩ := shift_spec hn d
  rcases lt_trichotomy (shift n d) k with h | h | h
  · -- a shift that is long enough reaches `d` before `k`
    obtain ⟨j, rfl⟩ : ∃ j, k = j + 1 := ⟨k - 1, by omega⟩
    have hmono : n * 10 ^ shift n d ≤ n * 10 ^ j :=
      Nat.mul_le_mul_left n (Nat.pow_le_pow_right (by norm_num) (by omega))
    have := hlt j rfl
    omega
  · exact h
  · have := hlt' k h
    omega

/-- Long division keeps the dividend: what was divided is the quotient times the divisor and the
rest, and all places are used unless the division comes out even. -/
theorem longDivision_spec {d : ℕ} (places : ℕ) {q r : ℕ} (hr : r < d) :
    ∃ q' r' used, longDivision d places q r = (q', r', used) ∧ used ≤ places ∧ r' < d ∧
      q' * d + r' = (q * d + r) * 10 ^ used ∧ (r' ≠ 0 → used = places) := by
  induction places generalizing q r with
  | zero => exact ⟨q, r, 0, rfl, Nat.le_refl 0, hr, by simp, fun _ => rfl⟩
  | succ places ih =>
    by_cases hzero : r = 0
    · exact ⟨q, r, 0, by rw [longDivision, if_pos hzero], Nat.zero_le _, hr, by simp,
        fun h => absurd hzero h⟩
    · obtain ⟨q', r', used, heq, hused, hr', hsum, hall⟩ :=
        ih (q := q * 10 + r * 10 / d) (Nat.mod_lt (r * 10) (by omega))
      refine ⟨q', r', used + 1, by rw [longDivision, if_neg hzero, heq], by omega, hr', ?_, ?_⟩
      · have hstep : (q * 10 + r * 10 / d) * d + r * 10 % d = (q * d + r) * 10 := by
          have := Nat.div_add_mod' (r * 10) d
          rw [add_mul, add_assoc, this]
          ring
        rw [hsum, hstep, pow_succ', mul_assoc]
      · intro h
        rw [hall h]

/-- A quotient of integers is computed to `precision` digits, or to its last digit before the
point if there are more. -/
theorem quotientPlaces_eq {n d : ℕ} (hn : 0 < n) (hd : 0 < d) :
    quotientPlaces n d =
      shift n d + (precision - (digits (n * 10 ^ shift n d / d)).length) := by
  obtain ⟨hle, hlt⟩ := shift_spec hn d
  generalize hlength : (digits (n * 10 ^ shift n d / d)).length = length
  have hq : 0 < n * 10 ^ shift n d / d := Nat.div_pos hle hd
  have hpos : 0 < length := hlength ▸ Nat.length_toDigits_pos
  have hbound : ∀ k, 0 < k → (length ≤ k ↔ n * 10 ^ shift n d / d < 10 ^ k) := fun k hk =>
    hlength ▸ Nat.length_toDigits_le_iff (by norm_num) hk
  -- a number with this many digits, times the divisor
  have hlow : 10 ^ (length - 1) * d ≤ n * 10 ^ shift n d := by
    rw [← Nat.le_div_iff_mul_le hd]
    rcases Nat.eq_or_lt_of_le hpos with h | h
    · rw [← h]
      exact hq
    · have := (hbound (length - 1) (by omega)).not.1 (by omega)
      omega
  have hhigh : n * 10 ^ shift n d < 10 ^ length * d := by
    rw [← Nat.div_lt_iff_lt_mul hd]
    exact (hbound length hpos).1 (Nat.le_refl length)
  refine shift_eq hn ?_ fun j hj => ?_
  · calc 10 ^ (precision - 1) * d
        ≤ 10 ^ (length - 1 + (precision - length)) * d :=
          Nat.mul_le_mul_right d (Nat.pow_le_pow_right (by norm_num) (by omega))
      _ = 10 ^ (length - 1) * d * 10 ^ (precision - length) := by ring
      _ ≤ n * 10 ^ shift n d * 10 ^ (precision - length) := Nat.mul_le_mul_right _ hlow
      _ = n * 10 ^ (shift n d + (precision - length)) := by ring
  · rcases Nat.eq_zero_or_pos (precision - length) with h | h
    · calc n * 10 ^ j < d := hlt j (by omega)
        _ ≤ 10 ^ (precision - 1) * d := Nat.le_mul_of_pos_left d (by positivity)
    · calc n * 10 ^ j = n * 10 ^ shift n d * 10 ^ (precision - length - 1) := by
            rw [mul_assoc, ← pow_add]
            congr 2
            omega
        _ < 10 ^ length * d * 10 ^ (precision - length - 1) :=
          Nat.mul_lt_mul_of_pos_right hhigh (by positivity)
        _ = 10 ^ (length + (precision - length - 1)) * d := by ring
        _ = 10 ^ (precision - 1) * d := by
          congr 2
          omega

/-- Rounding half up by the remainder of a division. -/
theorem nearestUp_remainder {n d q r : ℕ} (hr : r < d) (hn : q * d + r = n) :
    NearestUp ((n : ℚ) / d) ((if d ≤ 2 * r then q + 1 else q : ℕ) : ℤ) := by
  have hd : (0 : ℚ) < d := by exact_mod_cast (Nat.zero_le r).trans_lt hr
  have hdiv : (n : ℚ) / d = q + r / d := by
    rw [← hn, div_eq_iff hd.ne', add_mul, div_mul_cancel₀ _ hd.ne']
    push_cast
    rfl
  have hless : (r : ℚ) / d < 1 := by
    rw [div_lt_one hd]
    exact_mod_cast hr
  have hpos : 0 ≤ (r : ℚ) / d := by positivity
  have hhalf : d ≤ 2 * r ↔ 1 / 2 ≤ (r : ℚ) / d := by
    rw [div_le_div_iff₀ two_pos hd, one_mul, mul_comm]
    exact_mod_cast Iff.rfl
  rw [hdiv]
  split_ifs with h
  · rw [hhalf] at h
    exact ⟨by push_cast; linarith, by push_cast; linarith⟩
  · rw [hhalf, not_le] at h
    exact ⟨by push_cast; linarith, by push_cast; linarith⟩

/-- **Long division rounds half up** after `quotientPlaces` digits. -/
theorem quotientDigits_spec {n d : ℕ} (hn : 0 < n) (hd : 0 < d) :
    ∃ q k, quotientDigits n d = (q, k) ∧ k ≤ quotientPlaces n d ∧
      NearestUp ((n * 10 ^ quotientPlaces n d : ℕ) / d)
        ((q * 10 ^ (quotientPlaces n d - k) : ℕ) : ℤ) := by
  have hplaces := quotientPlaces_eq hn hd
  generalize hspare : precision - (digits (n * 10 ^ shift n d / d)).length = spare at hplaces
  obtain ⟨q, r, used, hdivision, hused, hr, hsum, hall⟩ :=
    longDivision_spec spare (q := n * 10 ^ shift n d / d) (Nat.mod_lt (n * 10 ^ shift n d) hd)
  rw [Nat.div_add_mod'] at hsum
  have heq : quotientDigits n d = (if d ≤ 2 * r then q + 1 else q, shift n d + used) := by
    rw [quotientDigits, hspare, hdivision]
  refine ⟨_, _, heq, by omega, ?_⟩
  by_cases hzero : r = 0
  · -- the division came out even, so there are only zeros after its end
    subst hzero
    have hexact : q * 10 ^ (quotientPlaces n d - (shift n d + used)) * d + 0 =
        n * 10 ^ quotientPlaces n d := by
      rw [add_zero] at hsum ⊢
      rw [mul_right_comm, hsum, mul_assoc, mul_assoc, ← pow_add, ← pow_add]
      congr 2
      omega
    have hround := nearestUp_remainder hd hexact
    rwa [if_neg (by omega)] at hround ⊢
  · obtain rfl := hall hzero
    have hplaces' : quotientPlaces n d - (shift n d + used) = 0 := by omega
    rw [hplaces', pow_zero, mul_one]
    refine nearestUp_remainder hr ?_
    rw [hsum, hplaces, mul_assoc, ← pow_add]

/-! ### The quotient at the scale of the dividend -/

theorem sign_mul_sign {n d : ℤ} (hn : n ≠ 0) (hd : d ≠ 0) :
    n.sign * d.sign = 1 ∨ n.sign * d.sign = -1 := by
  rcases lt_or_gt_of_ne hn with hn | hn <;> rcases lt_or_gt_of_ne hd with hd | hd <;>
    simp [Int.sign_eq_one_of_pos, Int.sign_eq_neg_one_of_neg, hn, hd]

/-- The first step of a division: the sign, and the digits of the quotient. -/
theorem quotient_spec {a b : Decimal} (ha : a.unscaled ≠ 0) (hb : b.unscaled ≠ 0)
    (hone : b.isOne = false) :
    ∃ q k : ℕ, a.quotient b =
        ⟨a.unscaled.sign * b.unscaled.sign * q, a.scale - b.scale + k⟩ ∧
      k ≤ quotientPlaces a.unscaled.natAbs b.unscaled.natAbs ∧
        NearestUp ((a.unscaled.natAbs *
            10 ^ quotientPlaces a.unscaled.natAbs b.unscaled.natAbs : ℕ) / b.unscaled.natAbs)
          ((q * 10 ^ (quotientPlaces a.unscaled.natAbs b.unscaled.natAbs - k) : ℕ) : ℤ) := by
  have hzero : a.isZero = false := by simpa [isZero] using ha
  have hn : 0 < a.unscaled.natAbs := Int.natAbs_pos.2 ha
  have hd : 0 < b.unscaled.natAbs := Int.natAbs_pos.2 hb
  by_cases heq : a.unscaled = b.unscaled
  · refine ⟨1, 0, ?_, Nat.zero_le _, ?_⟩
    · have hsign : b.unscaled.sign * b.unscaled.sign = 1 := by
        rw [← Int.sign_mul, Int.sign_eq_one_iff_pos]
        exact mul_self_pos.2 hb
      rw [quotient, hzero, hone]
      simp [heq, hsign]
    · rw [heq, one_mul, Nat.sub_zero]
      have hcancel : ∀ k : ℕ, ((b.unscaled.natAbs * k : ℕ) : ℚ) / b.unscaled.natAbs = (k : ℤ) := by
        intro k
        rw [Nat.cast_mul, mul_div_cancel_left₀ _ (by exact_mod_cast hd.ne')]
        rfl
      rw [hcancel]
      exact .of_int _
  · obtain ⟨q, k, hdigits, hk, hround⟩ := quotientDigits_spec hn hd
    refine ⟨q, k, ?_, hk, hround⟩
    rw [quotient, hzero, hone]
    simp [heq, hdigits]

/-- The exact quotient, sign and magnitude. -/
theorem quotientUnits_eq (a b : Decimal) :
    quotientUnits a b = (a.unscaled.sign * b.unscaled.sign : ℤ) *
      ((a.unscaled.natAbs : ℚ) / b.unscaled.natAbs * 10 ^ b.scale) := by
  have hparts : ∀ n : ℤ, (n : ℚ) = n.sign * n.natAbs := fun n => by
    rw [← Int.cast_natCast n.natAbs]
    exact_mod_cast (Int.sign_mul_natAbs n).symm
  have hinv : (b.unscaled.sign : ℚ)⁻¹ = b.unscaled.sign := by
    rcases lt_trichotomy b.unscaled 0 with h | h | h
    · rw [Int.sign_eq_neg_one_of_neg h]
      norm_num
    · rw [h]
      norm_num
    · rw [Int.sign_eq_one_of_pos h]
      norm_num
  have hten : (10 : ℚ) ^ (-a.scale) * 10 ^ a.scale = 1 := by
    rw [← zpow_add₀ (by norm_num), neg_add_cancel, zpow_zero]
  rw [quotientUnits, toRat, toRat, hparts a.unscaled, hparts b.unscaled, div_eq_mul_inv, mul_inv,
    mul_inv, hinv, ← zpow_neg, neg_neg]
  push_cast
  linear_combination (a.unscaled.sign * a.unscaled.natAbs * (b.unscaled.sign *
    (b.unscaled.natAbs : ℚ)⁻¹ * 10 ^ b.scale)) * hten

theorem toRat_of_isOne {b : Decimal} (h : b.isOne = true) : b.toRat = 1 := by
  obtain ⟨hscale, -, hunscaled⟩ : 0 ≤ b.scale ∧ b.scale ≤ oneScaleLimit ∧
    b.unscaled = 10 ^ b.scale.toNat := by simpa [isOne] using h
  obtain ⟨k, hk⟩ := Int.eq_ofNat_of_zero_le hscale
  rw [toRat, hunscaled, hk, Int.toNat_natCast, zpow_neg, zpow_natCast]
  push_cast
  exact mul_inv_cancel₀ (by positivity)

/-- The quotient of decimals is not rounded as it should be. -/
def QuotientMisrounds (a b : Decimal) : Prop :=
  b.isOne = false ∧ Misrounds (spareDigits a b) |quotientUnits a b|

/-- The first quotient, in units of the dividend's last place. -/
theorem quotient_toRat_units {a b : Decimal} {q k : ℕ}
    (hquotient : a.quotient b = ⟨a.unscaled.sign * b.unscaled.sign * q, a.scale - b.scale + k⟩)
    (hk : k ≤ quotientPlaces a.unscaled.natAbs b.unscaled.natAbs) :
    (a.quotient b).toRat * 10 ^ a.scale = (a.unscaled.sign * b.unscaled.sign : ℤ) *
      (((q * 10 ^ (quotientPlaces a.unscaled.natAbs b.unscaled.natAbs - k) : ℕ) : ℤ) *
        10 ^ (-spareDigits a b)) := by
  have hscales : (10 : ℚ) ^ (-(a.scale - b.scale + k)) * 10 ^ a.scale =
      10 ^ (quotientPlaces a.unscaled.natAbs b.unscaled.natAbs - k) *
        10 ^ (-spareDigits a b) := by
    rw [← zpow_natCast, ← zpow_add₀ (by norm_num), ← zpow_add₀ (by norm_num), Nat.cast_sub hk,
      spareDigits]
    congr 1
    ring
  rw [hquotient, toRat]
  push_cast
  linear_combination (a.unscaled.sign * b.unscaled.sign * q : ℚ) * hscales

/-- The magnitude of the exact quotient, in units of the first quotient's last place. -/
theorem quotient_magnitude (a b : Decimal) :
    (a.unscaled.natAbs : ℚ) / b.unscaled.natAbs * 10 ^ b.scale * 10 ^ spareDigits a b =
      (a.unscaled.natAbs * 10 ^ quotientPlaces a.unscaled.natAbs b.unscaled.natAbs : ℕ) /
        b.unscaled.natAbs := by
  rw [mul_assoc, ← zpow_add₀ (by norm_num), spareDigits, add_sub_cancel, zpow_natCast]
  push_cast
  ring

/-- If there is something to divide, then the quotient is rounded twice. -/
theorem quotient_rescaled_iff_of_ne {a b : Decimal} (ha : a.unscaled ≠ 0) (hb : b.unscaled ≠ 0)
    (hone : b.isOne = false) {z : ℤ}
    (hz : NearestEven ((a.quotient b).toRat * 10 ^ a.scale) z) :
    NearestEven (quotientUnits a b) z ↔ ¬ QuotientMisrounds a b := by
  obtain ⟨q, k, hquotient, hk, hround⟩ := quotient_spec ha hb hone
  have hpos : 0 ≤ (a.unscaled.natAbs : ℚ) / b.unscaled.natAbs * 10 ^ b.scale := by positivity
  rw [← quotient_magnitude a b] at hround
  rw [quotient_toRat_units hquotient hk] at hz
  rw [QuotientMisrounds, hone, quotientUnits_eq a b]
  simp only [true_and]
  rcases sign_mul_sign ha hb with hsign | hsign
  · rw [hsign, Int.cast_one, one_mul] at hz ⊢
    rw [abs_of_nonneg hpos]
    exact nearestEven_iff_not_misrounds hround hz
  · rw [hsign, Int.cast_neg, Int.cast_one, neg_one_mul] at hz ⊢
    rw [abs_neg, abs_of_nonneg hpos, ← nearestEven_neg, neg_neg]
    exact nearestEven_iff_not_misrounds hround (by simpa using hz.neg)

/-- A quotient that is brought to the scale of its dividend is rounded right except in the cases
of `QuotientMisrounds`. -/
theorem quotient_rescaled_iff {a b : Decimal} (hb : b.unscaled ≠ 0) :
    NearestEven (quotientUnits a b) ((a.quotient b).rescaled a.scale).unscaled ↔
      ¬ QuotientMisrounds a b := by
  have hz := (rescaled_nearest (a.quotient b) a.scale).2
  by_cases hone : b.isOne = true
  · -- a divisor of one leaves the dividend as it is
    have hquotient : a.quotient b = a := by simp [quotient, hone]
    rw [hquotient] at hz ⊢
    refine iff_of_true ?_ fun h => ?_
    · rwa [quotientUnits, toRat_of_isOne hone, div_one]
    · rw [h.1] at hone
      cases hone
  rw [Bool.not_eq_true] at hone
  by_cases ha : a.unscaled = 0
  · have hquotient : a.quotient b = a := by simp [quotient, isZero, ha]
    have hunits : quotientUnits a b = 0 := by simp [quotientUnits, toRat, ha]
    rw [hquotient, toRat, ha, Int.cast_zero, zero_mul, zero_mul] at hz
    rw [QuotientMisrounds, hquotient, hunits, abs_zero]
    exact iff_of_true hz fun h => not_misrounds_zero _ h.2
  · exact quotient_rescaled_iff_of_ne ha hb hone hz

end Decimal

open Decimal

/-- **When a quotient of decimals is correctly rounded.**  Division by zero is an error, at
any scale.  Any other quotient has the scale of the dividend; it is the exact quotient rounded
half to even there if and only if rounding at `precision` digits before does no harm. -/
theorem decimal_quotient_rounded_iff (h : Heap) (a b : Decimal) :
    (b.unscaled = 0 → Operator.apply h .divide (.decimal a) (.decimal b) =
      .error .divisionByZero) ∧
    (b.unscaled ≠ 0 → ∃ c, Operator.apply h .divide (.decimal a) (.decimal b) =
        .ok (.decimal c) ∧ c.scale = a.scale ∧
      (NearestEven (a.toRat / b.toRat * 10 ^ a.scale) c.unscaled ↔ ¬ QuotientMisrounds a b)) := by
  refine ⟨fun hb => ?_, fun hb => ⟨(a.quotient b).rescaled a.scale, ?_, ?_, ?_⟩⟩
  · simp [Operator.apply, Operator.decimalQuotient, div?, isZero, hb]
  · simp [Operator.apply, Operator.decimalQuotient, div?, isZero, hb]
  · exact (rescaled_nearest _ _).1
  · exact quotient_rescaled_iff hb

/-- A quotient just below `0.15`, so close that `precision` digits do not show it: half to even
takes `0.15` up to `0.2`. -/
theorem decimal_quotient_rounded_iff_below_half :
    QuotientMisrounds ⟨3 * 10 ^ 101 - 1, 1⟩ ⟨2 * 10 ^ 102, 1⟩ ∧
      ∃ c, Operator.apply .empty .divide (.decimal ⟨3 * 10 ^ 101 - 1, 1⟩)
          (.decimal ⟨2 * 10 ^ 102, 1⟩) = .ok (.decimal c) ∧ c.scale = 1 ∧
        ¬ NearestEven (toRat ⟨3 * 10 ^ 101 - 1, 1⟩ / toRat ⟨2 * 10 ^ 102, 1⟩ * 10 ^ (1 : ℤ))
          c.unscaled := by
  have hspare : spareDigits ⟨3 * 10 ^ 101 - 1, 1⟩ ⟨2 * 10 ^ 102, 1⟩ = 99 := by decide +kernel
  have hunits : quotientUnits ⟨3 * 10 ^ 101 - 1, 1⟩ ⟨2 * 10 ^ 102, 1⟩ =
      3 / 2 - 1 / (2 * 10 ^ 101) := by
    norm_num [quotientUnits, toRat]
  have hmis : QuotientMisrounds ⟨3 * 10 ^ 101 - 1, 1⟩ ⟨2 * 10 ^ 102, 1⟩ := by
    refine ⟨by decide, ?_⟩
    rw [hspare, hunits, abs_of_pos (by norm_num)]
    exact .fromBelow 1 (by norm_num) odd_one (by norm_num) (by norm_num)
  obtain ⟨c, happly, hscale, hiff⟩ := (decimal_quotient_rounded_iff .empty
    ⟨3 * 10 ^ 101 - 1, 1⟩ ⟨2 * 10 ^ 102, 1⟩).2 (by decide)
  exact ⟨hmis, c, happly, hscale, fun hnear => hiff.1 hnear hmis⟩

/-- The quotient of `1.0` and `3 · 10⁻¹⁰¹` has 102 digits up to its last place, and the last two
of them are lost. -/
theorem decimal_quotient_loses_digits :
    ∃ c, Operator.apply .empty .divide (.decimal ⟨10, 1⟩) (.decimal ⟨3, 101⟩) =
        .ok (.decimal c) ∧ c.unscaled = 10 ^ 100 / 3 * 100 ∧
      ¬ NearestEven (toRat ⟨10, 1⟩ / toRat ⟨3, 101⟩ * 10 ^ (1 : ℤ)) c.unscaled := by
  refine ⟨⟨10 ^ 100 / 3 * 100, 1⟩, by decide +kernel, rfl, fun h => ?_⟩
  have hnear := h.nearest
  norm_num [toRat, abs_le] at hnear

end Scriptlet
