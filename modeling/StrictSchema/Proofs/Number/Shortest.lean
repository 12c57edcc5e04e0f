import StrictSchema.Proofs.Number.Rounding

/-!
# The shortest decimal reads back

`Binary64.shortest` yields a decimal in the interval of `x` (`covers_shortest`), whichever grid it
was found on, and so every decimal of the same value is read as `x` (`ofDecimal_of_value_eq`). The
powers of ten at which `Binary64.ofDecimal` answers without rounding are out of reach of that
interval (`Covers.firstDigit_bounds`).
-/

namespace StrictSchema

namespace Decimal

/-- The number that a decimal stands for. -/
def value (d : Decimal) : ℚ := d.digits * 10 ^ d.exponent

section Scaled

variable {a b : Nat} {p q : ℤ}

theorem leScaled_iff : leScaled a p b q ↔ (a : ℚ) * 10 ^ p ≤ b * 2 ^ q := by
  rw [zpow_eq_div (by norm_num) p, zpow_eq_div (by norm_num) q, mul_div_assoc', mul_div_assoc',
    div_le_div_iff₀ (by positivity) (by positivity)]
  unfold leScaled
  rw [decide_eq_true_iff, ← Nat.cast_le (α := ℚ)]
  push_cast [twoTo_cast, tenTo_cast]
  rfl

theorem geScaled_iff : geScaled a p b q ↔ (b : ℚ) * 2 ^ q ≤ a * 10 ^ p := by
  rw [zpow_eq_div (by norm_num) p, zpow_eq_div (by norm_num) q, mul_div_assoc', mul_div_assoc',
    div_le_div_iff₀ (by positivity) (by positivity)]
  unfold geScaled
  rw [decide_eq_true_iff, ← Nat.cast_le (α := ℚ)]
  push_cast [twoTo_cast, tenTo_cast]
  rfl

end Scaled

/-! ## The place of the first digit -/

theorem length_digitsOf_pos (n : Nat) : 0 < (digitsOf n).length := Nat.length_toDigits_pos

theorem lt_tenPow_length (n : Nat) : n < 10 ^ (digitsOf n).length :=
  (Nat.length_toDigits_le_iff (by decide) (length_digitsOf_pos n)).mp le_rfl

theorem tenPow_length_le {n : Nat} (hn : n ≠ 0) : 10 ^ ((digitsOf n).length - 1) ≤ n := by
  by_contra less
  by_cases one : (digitsOf n).length = 1
  · rw [one] at less
    simp only [Nat.sub_self, pow_zero] at less
    omega
  · have pos := length_digitsOf_pos n
    have := (Nat.length_toDigits_le_iff (by decide) (by omega)).mpr (not_le.mp less)
    unfold digitsOf at one pos this
    omega

theorem value_lt (d : Decimal) : d.value < 10 ^ (d.exponent + (digitsOf d.digits).length) := by
  unfold value
  rw [add_comm, zpow_add₀ (by norm_num), zpow_natCast]
  gcongr
  exact_mod_cast lt_tenPow_length d.digits

theorem le_value {d : Decimal} (hd : d.digits ≠ 0) :
    10 ^ (d.exponent + (digitsOf d.digits).length - 1) ≤ d.value := by
  have pos := length_digitsOf_pos d.digits
  have place : d.exponent + (digitsOf d.digits).length - 1 =
      ((digitsOf d.digits).length - 1 : Nat) + d.exponent := by omega
  unfold value
  rw [place, zpow_add₀ (by norm_num), zpow_natCast]
  gcongr
  exact_mod_cast tenPow_length_le hd

end Decimal

namespace Binary64

open Decimal

variable {x : Binary64} {d : Decimal} {tie : Tie}

theorem two_le_tenPow : (2 : ℚ) ^ (1088 : ℤ) ≤ 10 ^ (400 : ℤ) := by
  calc (2 : ℚ) ^ (1088 : ℤ) = (2 ^ (17 : ℤ)) ^ (64 : ℤ) := by rw [← zpow_mul]; norm_num
    _ ≤ (10 ^ (6 : ℤ)) ^ (64 : ℤ) := zpow_le_zpow_left₀ (by norm_num) (by norm_num) (by norm_num)
    _ = 10 ^ (384 : ℤ) := by rw [← zpow_mul]; norm_num
    _ ≤ 10 ^ (400 : ℤ) := zpow_le_zpow_right₀ (by norm_num) (by norm_num)

theorem Covers.digits_ne_zero (h : x.Covers d.value) (hx : x.significand ≠ 0) : d.digits ≠ 0 := by
  intro zero
  have pos := h.pos hx
  simp [value, zero] at pos

/-- A decimal in the interval of `x` has its first digit where finite numbers have theirs. -/
theorem Covers.firstDigit_bounds (h : x.Covers d.value) (hx : x.significand ≠ 0) :
    -400 ≤ d.exponent + (digitsOf d.digits).length ∧
      d.exponent + (digitsOf d.digits).length ≤ 400 := by
  constructor
  · by_contra small
    have order : (2 : ℚ) ^ (-1076 : ℤ) < 10 ^ (-400 : ℤ) :=
      calc (2 : ℚ) ^ (-1076 : ℤ) < d.value := h.least_lt hx
        _ < 10 ^ (d.exponent + (digitsOf d.digits).length) := d.value_lt
        _ ≤ 10 ^ (-400 : ℤ) := zpow_le_zpow_right₀ (by norm_num) (by omega)
    have inverse : (10 : ℚ) ^ (400 : ℤ) < 2 ^ (1076 : ℤ) := by
      rw [zpow_neg, zpow_neg] at order
      exact (inv_lt_inv₀ (by positivity) (by positivity)).mp order
    have more : (2 : ℚ) ^ (1076 : ℤ) ≤ 2 ^ (1088 : ℤ) :=
      zpow_le_zpow_right₀ (by norm_num) (by norm_num)
    exact absurd (inverse.trans_le more) (not_lt.mpr two_le_tenPow)
  · by_contra great
    have bound : x.exponent ≤ 971 := x.canonical.2.2.1
    have order : (10 : ℚ) ^ (400 : ℤ) < 2 ^ (1088 : ℤ) :=
      calc (10 : ℚ) ^ (400 : ℤ) ≤ 10 ^ (d.exponent + (digitsOf d.digits).length - 1) :=
          zpow_le_zpow_right₀ (by norm_num) (by omega)
        _ ≤ d.value := le_value (h.digits_ne_zero hx)
        _ < 2 ^ (x.exponent + 53) := h.lt_top
        _ ≤ 2 ^ (1088 : ℤ) := zpow_le_zpow_right₀ (by norm_num) (by omega)
    exact absurd order (not_lt.mpr two_le_tenPow)

/-- Every decimal in the interval of `x` is read as `x`. -/
theorem ofDecimal_of_covers (hx : x.significand ≠ 0) (h : x.Covers d.value) :
    ofDecimal x.negative d.digits d.exponent = some x := by
  obtain ⟨low, high⟩ := h.firstDigit_bounds hx
  unfold digitsOf at low high
  have quotient : ((d.digits * tenTo d.exponent.toNat : Nat) : ℚ) /
      (tenTo (-d.exponent).toNat : Nat) = d.value := by
    unfold value
    rw [zpow_eq_div (by norm_num) d.exponent, Nat.cast_mul, tenTo_cast, tenTo_cast, mul_div_assoc]
  unfold ofDecimal
  rw [if_neg (h.digits_ne_zero hx)]
  simp only [if_neg (not_lt.mpr high), if_neg (not_lt.mpr low)]
  apply nearest_of_covers hx (tenTo_pos _)
  rwa [quotient]

/-! ## The decimal that is chosen -/

/-- The test of the rounding interval is sound. -/
theorem covers_of_rounds (hx : x.significand ≠ 0) (h : x.rounds d) : x.Covers d.value := by
  have unit : (2 : ℚ) ^ x.exponent = 4 * 2 ^ (x.exponent - 2) := by
    rw [show x.exponent = 2 + (x.exponent - 2) by ring, zpow_add₀ (by norm_num)]
    norm_num
  have high : ((4 * x.significand + 2 : Nat) : ℚ) * 2 ^ (x.exponent - 2) =
      (x.significand + 1 / 2) * 2 ^ x.exponent := by
    rw [unit]
    push_cast
    ring
  have low : ((4 * x.significand - (if x.significand = fullSignificand ∧ -1074 < x.exponent then 1
      else 2) : Nat) : ℚ) * 2 ^ (x.exponent - 2) =
      (x.significand - x.reachBelow) * 2 ^ x.exponent := by
    rw [unit, Nat.cast_sub (by split <;> omega)]
    unfold reachBelow
    split <;> push_cast <;> ring
  unfold rounds at h
  unfold Covers
  by_cases even : x.significand % 2 = 0
  · simp only [even, if_true, Bool.and_eq_true, geScaled_iff, leScaled_iff, low, high] at h ⊢
    exact h
  · simp only [even, if_false, Bool.and_eq_true, Bool.not_eq_true', ← Bool.not_eq_true,
      geScaled_iff, leScaled_iff, low, high, not_le] at h ⊢
    exact h

theorem rounds_of_onGrid? {p : ℤ} (h : x.onGrid? tie p = some d) : x.rounds d := by
  unfold onGrid? at h
  simp only at h
  split at h
  case h_1 lower upper =>
    cases h
    split
    · exact lower
    · exact upper
  case h_2 lower _ =>
    cases h
    exact lower
  case h_3 _ upper =>
    cases h
    exact upper
  case h_4 => cases h

theorem value_exact (x : Binary64) : x.exact.value = x.significand * 2 ^ x.exponent := by
  unfold exact value
  by_cases negative : x.exponent < 0
  · have power : ((-x.exponent).toNat : ℤ) = -x.exponent := Int.toNat_of_nonneg (by omega)
    rw [if_pos negative]
    push_cast
    rw [show (Nat.pow 5 (-x.exponent).toNat : ℚ) = 5 ^ (-x.exponent) by
      rw [← power, zpow_natCast]
      exact Nat.cast_pow 5 _]
    rw [show (10 : ℚ) = 5 * 2 by norm_num, mul_zpow, zpow_neg]
    field_simp
  · have power : (x.exponent.toNat : ℤ) = x.exponent := Int.toNat_of_nonneg (by omega)
    rw [if_neg negative]
    push_cast
    rw [twoTo_cast, ← zpow_natCast, power, mul_one]

/-- The decimal that is chosen for a number lies in its interval. -/
theorem covers_shortest (hx : x.significand ≠ 0) : x.Covers (x.shortest tie).value := by
  have nonzero : ¬x.isZero := by simpa [isZero] using hx
  unfold shortest
  rw [if_neg nonzero]
  simp only
  cases found : (List.range 18).findSome? fun n : Nat => x.onGrid? tie (x.firstDigit + 1 - n) with
  | none =>
    rw [Option.getD_none, value_exact]
    exact x.covers_self
  | some d =>
    rw [Option.getD_some]
    obtain ⟨n, _, grid⟩ := List.exists_of_findSome?_eq_some found
    exact covers_of_rounds hx (rounds_of_onGrid? grid)

theorem eq_zero_of_significand (hx : x.significand = 0) : x = zero x.negative := by
  obtain ⟨negative, m, e, canonical⟩ := x
  obtain rfl : m = 0 := hx
  have least : e = -1074 := canonical.2.2.2.resolve_left (by decide)
  subst least
  rfl

theorem shortest_of_significand (hx : x.significand = 0) : x.shortest tie = ⟨0, 0⟩ := by
  have isZero : x.isZero := by simp [Binary64.isZero, hx]
  unfold shortest
  rw [if_pos isZero]

/-- Every decimal of the value that is chosen for `x` is read as `x`. -/
theorem ofDecimal_of_value_eq (h : d.value = (x.shortest tie).value) :
    ofDecimal x.negative d.digits d.exponent = some x := by
  by_cases hx : x.significand = 0
  · have digits : d.digits = 0 := by
      have ten : (10 : ℚ) ^ d.exponent ≠ 0 := by positivity
      rw [shortest_of_significand hx] at h
      simpa [value, ten] using h
    unfold ofDecimal
    rw [if_pos digits, ← eq_zero_of_significand hx]
  · apply ofDecimal_of_covers hx
    rw [h]
    exact covers_shortest hx

end Binary64

end StrictSchema
