import Mathlib.Algebra.Order.Field.Power
import Mathlib.Data.Int.Log
import Mathlib.Data.Rat.Floor
import Mathlib.Tactic.FieldSimp
import Mathlib.Tactic.Linarith
import Mathlib.Tactic.NormNum
import Mathlib.Tactic.Positivity
import Mathlib.Tactic.Ring
import StrictSchema.Number.Decimal

/-!
# Rounding to binary64

The numbers that round to the magnitude of `x` form an interval around it (`Binary64.Covers`): half
a unit to each side, a quarter below a power of two, the ends included if the significand is even.
`nearest_of_covers` says that `Binary64.nearest` takes every quotient in that interval to `x`, and
`ofDecimal_of_covers` that `Binary64.ofDecimal` does so for every decimal. The exponent is settled
first, from the binary logarithm (`unitExponent_eq_log`); the one place where it is not that of `x`
is the stretch just below a power of two, from which rounding carries.
-/

namespace StrictSchema

/-! ## Scales -/

@[simp] theorem twoTo_cast (k : Nat) : (twoTo k : ℚ) = 2 ^ k := by
  unfold twoTo
  exact Nat.cast_pow 2 k

@[simp] theorem tenTo_cast (k : Nat) : (tenTo k : ℚ) = 10 ^ k := by
  unfold tenTo
  exact Nat.cast_pow 10 k

theorem twoTo_pos (k : Nat) : 0 < twoTo k := Nat.pow_pos (by decide)

theorem tenTo_pos (k : Nat) : 0 < tenTo k := Nat.pow_pos (by decide)

theorem fullSignificand_cast : (fullSignificand : ℚ) = 2 ^ (52 : ℤ) := by
  norm_num [fullSignificand]

/-- An integer power as a quotient of natural powers, one of which is one. -/
theorem zpow_eq_div {b : ℚ} (hb : b ≠ 0) (e : ℤ) : b ^ e = b ^ e.toNat / b ^ (-e).toNat := by
  rw [← zpow_natCast, ← zpow_natCast, ← zpow_sub₀ hb]
  congr 1
  omega

namespace Binary64

/-! ## The interval of a number -/

/-- How far the interval of `x` reaches below it, in units of its last place. -/
def reachBelow (x : Binary64) : ℚ :=
  if x.significand = fullSignificand ∧ -1074 < x.exponent then 1 / 4 else 1 / 2

/-- Whether `v` lies in the interval of the numbers that round to the magnitude of `x`. -/
def Covers (x : Binary64) (v : ℚ) : Prop :=
  if x.significand % 2 = 0 then
    (x.significand - x.reachBelow) * 2 ^ x.exponent ≤ v ∧
      v ≤ (x.significand + 1 / 2) * 2 ^ x.exponent
  else
    (x.significand - x.reachBelow) * 2 ^ x.exponent < v ∧
      v < (x.significand + 1 / 2) * 2 ^ x.exponent

theorem reachBelow_pos (x : Binary64) : 0 < x.reachBelow := by
  unfold reachBelow
  split <;> norm_num

theorem reachBelow_le (x : Binary64) : x.reachBelow ≤ 1 / 2 := by
  unfold reachBelow
  split <;> norm_num

section Covers

variable {x : Binary64} {v : ℚ}

theorem Covers.le (h : x.Covers v) : (x.significand - x.reachBelow) * 2 ^ x.exponent ≤ v := by
  unfold Covers at h
  split at h
  · exact h.1
  · exact h.1.le

theorem Covers.ge (h : x.Covers v) : v ≤ (x.significand + 1 / 2) * 2 ^ x.exponent := by
  unfold Covers at h
  split at h
  · exact h.2
  · exact h.2.le

/-- The number itself lies in its interval. -/
theorem covers_self (x : Binary64) : x.Covers (x.significand * 2 ^ x.exponent) := by
  have hu : (0 : ℚ) < 2 ^ x.exponent := by positivity
  have below : (x.significand - x.reachBelow) * 2 ^ x.exponent < x.significand * 2 ^ x.exponent :=
    mul_lt_mul_of_pos_right (by linarith [x.reachBelow_pos]) hu
  have above : (x.significand : ℚ) * 2 ^ x.exponent < (x.significand + 1 / 2) * 2 ^ x.exponent :=
    mul_lt_mul_of_pos_right (by linarith) hu
  unfold Covers
  split
  · exact ⟨below.le, above.le⟩
  · exact ⟨below, above⟩

theorem Covers.least_lt (h : x.Covers v) (hx : x.significand ≠ 0) : (2 : ℚ) ^ (-1076 : ℤ) < v := by
  have one : (1 : ℚ) ≤ x.significand := by exact_mod_cast Nat.one_le_iff_ne_zero.mpr hx
  have unit : (2 : ℚ) ^ (-1074 : ℤ) ≤ 2 ^ x.exponent :=
    zpow_le_zpow_right₀ (by norm_num) x.canonical.2.1
  calc (2 : ℚ) ^ (-1076 : ℤ) < 2 ^ (-1075 : ℤ) := zpow_lt_zpow_right₀ (by norm_num) (by norm_num)
    _ = 1 / 2 * 2 ^ (-1074 : ℤ) := by
      rw [show (-1074 : ℤ) = -1075 + 1 by norm_num, zpow_add_one₀ (by norm_num)]
      ring
    _ ≤ (x.significand - x.reachBelow) * 2 ^ x.exponent := by
      have reach := x.reachBelow_le
      exact mul_le_mul (by linarith) unit (by positivity) (by linarith)
    _ ≤ v := h.le

/-- A number of the interval is below the next power of two. -/
theorem Covers.lt_top (h : x.Covers v) : v < 2 ^ (x.exponent + 53) := by
  have full : x.significand + 1 ≤ 2 * fullSignificand := x.canonical.1
  have full' : (x.significand : ℚ) + 1 ≤ 2 ^ (53 : ℤ) := by
    have : ((x.significand + 1 : Nat) : ℚ) ≤ ((2 * fullSignificand : Nat) : ℚ) := by
      exact_mod_cast full
    norm_num [fullSignificand] at this ⊢
    linarith
  calc v ≤ (x.significand + 1 / 2) * 2 ^ x.exponent := h.ge
    _ < 2 ^ (53 : ℤ) * 2 ^ x.exponent :=
      mul_lt_mul_of_pos_right (by linarith) (by positivity)
    _ = 2 ^ (x.exponent + 53) := by rw [mul_comm, ← zpow_add₀ (by norm_num)]

theorem Covers.pos (h : x.Covers v) (hx : x.significand ≠ 0) : 0 < v :=
  lt_trans (by positivity) (h.least_lt hx)

end Covers

/-! ## Rounding to a natural number -/

section Nearest

variable {num den : Nat}

/-- What lies within a half of `m` is rounded to `m`, and so are the ends if `m` is even. -/
theorem roundDiv_eq {m : Nat} (hden : 0 < den)
    (even : m % 2 = 0 → 2 * (m * den) ≤ 2 * num + den ∧ 2 * num ≤ 2 * (m * den) + den)
    (odd : m % 2 ≠ 0 → 2 * (m * den) < 2 * num + den ∧ 2 * num < 2 * (m * den) + den) :
    roundDiv num den = m := by
  have split : den * (num / den) + num % den = num := Nat.div_add_mod num den
  have small : num % den < den := Nat.mod_lt num hden
  have weak : 2 * (m * den) ≤ 2 * num + den ∧ 2 * num ≤ 2 * (m * den) + den := by
    by_cases hm : m % 2 = 0
    · exact even hm
    · exact ⟨(odd hm).1.le, (odd hm).2.le⟩
  unfold roundDiv
  generalize num / den = q at split ⊢
  generalize num % den = r at split small ⊢
  -- only the quotient and the number after it are as near as a half
  have near : m = q ∨ m = q + 1 := by
    by_contra far
    rcases Nat.lt_or_ge m q with less | more
    · have step : den * (m + 1) ≤ den * q := Nat.mul_le_mul_left den less
      rw [Nat.mul_add, Nat.mul_comm den m] at step
      omega
    · have step : den * (q + 2) ≤ den * m := Nat.mul_le_mul_left den (by omega)
      rw [Nat.mul_add, Nat.mul_comm den m] at step
      omega
  rcases near with rfl | rfl
  · rw [Nat.mul_comm den m] at split
    by_cases hm : m % 2 = 0
    · have := even hm
      simp only [hm, if_true]
      split_ifs <;> omega
    · have := odd hm
      simp only [hm, if_false]
      split_ifs <;> omega
  · rw [Nat.add_mul, Nat.mul_comm q den] at even odd
    by_cases hm : (q + 1) % 2 = 0
    · have := even hm
      simp only [show ¬q % 2 = 0 by omega, if_false]
      split_ifs <;> omega
    · have := odd hm
      simp only [show q % 2 = 0 by omega, if_true]
      split_ifs <;> omega

theorem inUnits_pos (hden : 0 < den) (e : ℤ) : 0 < (inUnits num den e).2 :=
  Nat.mul_pos hden (twoTo_pos _)

/-- `inUnits` divides the quotient by a power of two. -/
theorem inUnits_cast (e : ℤ) :
    ((inUnits num den e).1 : ℚ) / (inUnits num den e).2 = num / den / 2 ^ e := by
  simp only [inUnits, Nat.cast_mul, twoTo_cast]
  rw [zpow_eq_div (by norm_num) e]
  field_simp

/-! ## The exponent -/

theorem log2_le_div (hnum : 0 < num) (hden : 0 < den) :
    (2 : ℚ) ^ ((num.log2 : ℤ) - den.log2 - 1) ≤ num / den := by
  have hn : (2 : ℚ) ^ num.log2 ≤ num := by exact_mod_cast Nat.log2_self_le hnum.ne'
  have hd : (den : ℚ) ≤ 2 ^ (den.log2 + 1) := by exact_mod_cast Nat.lt_log2_self.le
  rw [le_div_iff₀ (by exact_mod_cast hden)]
  calc (2 : ℚ) ^ ((num.log2 : ℤ) - den.log2 - 1) * den
      ≤ 2 ^ ((num.log2 : ℤ) - den.log2 - 1) * 2 ^ (den.log2 + 1) := by gcongr
    _ = 2 ^ num.log2 := by
      rw [← zpow_natCast, ← zpow_natCast, ← zpow_add₀ (by norm_num)]
      congr 1
      push_cast
      ring
    _ ≤ num := hn

theorem div_lt_log2 (hden : 0 < den) :
    (num : ℚ) / den < 2 ^ ((num.log2 : ℤ) - den.log2 + 1) := by
  have hn : (num : ℚ) < 2 ^ (num.log2 + 1) := by exact_mod_cast Nat.lt_log2_self
  have hd : (2 : ℚ) ^ den.log2 ≤ den := by exact_mod_cast Nat.log2_self_le hden.ne'
  rw [div_lt_iff₀ (by exact_mod_cast hden)]
  calc (num : ℚ) < 2 ^ (num.log2 + 1) := hn
    _ = 2 ^ ((num.log2 : ℤ) - den.log2 + 1) * 2 ^ den.log2 := by
      rw [← zpow_natCast, ← zpow_natCast, ← zpow_add₀ (by norm_num)]
      congr 1
      push_cast
      ring
    _ ≤ 2 ^ ((num.log2 : ℤ) - den.log2 + 1) * den := by gcongr

/-- In units of `2 ^ e` a quotient has at most 53 bits before the point just if its logarithm is
less than `e + 53`. -/
theorem inUnits_lt_iff (hnum : 0 < num) (hden : 0 < den) (e : ℤ) :
    (inUnits num den e).1 / (inUnits num den e).2 < 2 * fullSignificand ↔
      Int.log 2 ((num : ℚ) / den) < e + 53 := by
  have hv : (0 : ℚ) < num / den := by positivity
  have hd : (0 : ℚ) < (inUnits num den e).2 := by exact_mod_cast inUnits_pos hden e
  have top : ((2 * fullSignificand : Nat) : ℚ) = 2 ^ (53 : ℤ) := by norm_num [fullSignificand]
  rw [Nat.div_lt_iff_lt_mul (inUnits_pos hden e), ← Int.lt_zpow_iff_log_lt (by norm_num) hv,
    ← Nat.cast_lt (α := ℚ), Nat.cast_mul, top, ← div_lt_iff₀ hd, inUnits_cast,
    div_lt_iff₀ (by positivity), ← zpow_add₀ (by norm_num), add_comm]
  norm_num

/-- The exponent is that of a significand of 53 bits, where it is not the least. -/
theorem unitExponent_eq_log (hnum : 0 < num) (hden : 0 < den) :
    unitExponent num den = max (Int.log 2 ((num : ℚ) / den) - 52) (-1074) := by
  have hv : (0 : ℚ) < num / den := by positivity
  have low : (num.log2 : ℤ) - den.log2 - 1 ≤ Int.log 2 ((num : ℚ) / den) :=
    (Int.zpow_le_iff_le_log (by norm_num) hv).mp (by exact_mod_cast log2_le_div hnum hden)
  have high : Int.log 2 ((num : ℚ) / den) < (num.log2 : ℤ) - den.log2 + 1 :=
    (Int.lt_zpow_iff_log_lt (by norm_num) hv).mp (by exact_mod_cast div_lt_log2 hden)
  unfold unitExponent
  simp only [inUnits_lt_iff hnum hden]
  split_ifs <;> omega

theorem log_eq {v : ℚ} {k : ℤ} (low : 2 ^ k ≤ v) (high : v < 2 ^ (k + 1)) : Int.log 2 v = k := by
  have hv : 0 < v := lt_of_lt_of_le (by positivity) low
  have := (Int.zpow_le_iff_le_log (b := 2) (by norm_num) hv).mp (by exact_mod_cast low)
  have := (Int.lt_zpow_iff_log_lt (b := 2) (by norm_num) hv).mp (by exact_mod_cast high)
  omega

/-! ## The nearest number -/

/-- A quotient within a half of `m` units is rounded to `m`. -/
theorem roundDiv_inUnits {m : Nat} {e : ℤ} (hden : 0 < den)
    (even : m % 2 = 0 → ((m : ℚ) - 1 / 2) * 2 ^ e ≤ num / den ∧
      (num : ℚ) / den ≤ (m + 1 / 2) * 2 ^ e)
    (odd : m % 2 ≠ 0 → ((m : ℚ) - 1 / 2) * 2 ^ e < num / den ∧
      (num : ℚ) / den < (m + 1 / 2) * 2 ^ e) :
    roundDiv (inUnits num den e).1 (inUnits num den e).2 = m := by
  have hu : (0 : ℚ) < 2 ^ e := by positivity
  have hcast : ((inUnits num den e).1 : ℚ) / (inUnits num den e).2 = num / den / 2 ^ e :=
    inUnits_cast e
  have hd : 0 < (inUnits num den e).2 := inUnits_pos hden e
  generalize (inUnits num den e).1 = n at hcast ⊢
  generalize (inUnits num den e).2 = d at hcast hd ⊢
  have hd' : (0 : ℚ) < d := by exact_mod_cast hd
  have scaled : (num : ℚ) / den = n / d * 2 ^ e := by rw [hcast]; field_simp
  rw [scaled] at even odd
  apply roundDiv_eq hd
  · intro hm
    obtain ⟨low, high⟩ := even hm
    have low := le_of_mul_le_mul_right low hu
    have high := le_of_mul_le_mul_right high hu
    rw [le_div_iff₀ hd'] at low
    rw [div_le_iff₀ hd'] at high
    constructor
    · have : (2 * (m * d) : ℚ) ≤ 2 * n + d := by linarith
      exact_mod_cast this
    · have : (2 * n : ℚ) ≤ 2 * (m * d) + d := by linarith
      exact_mod_cast this
  · intro hm
    obtain ⟨low, high⟩ := odd hm
    have low := lt_of_mul_lt_mul_right low hu.le
    have high := lt_of_mul_lt_mul_right high hu.le
    rw [lt_div_iff₀ hd'] at low
    rw [div_lt_iff₀ hd'] at high
    constructor
    · have : (2 * (m * d) : ℚ) < 2 * n + d := by linarith
      exact_mod_cast this
    · have : (2 * n : ℚ) < 2 * (m * d) + d := by linarith
      exact_mod_cast this

theorem ofRounded?_self (x : Binary64) :
    ofRounded? x.negative x.significand x.exponent = some x := by
  have small : x.significand ≠ 2 * fullSignificand := x.canonical.1.ne
  simp only [ofRounded?, if_neg small, dif_pos x.canonical]

/-- A significand that was rounded up to 54 bits is the full one of the next exponent. -/
theorem ofRounded?_carry {x : Binary64} (full : x.significand = fullSignificand) :
    ofRounded? x.negative (2 * fullSignificand) (x.exponent - 1) = some x := by
  obtain ⟨negative, m, e, canonical⟩ := x
  obtain rfl : m = fullSignificand := full
  simp only [ofRounded?, if_true, sub_add_cancel, dif_pos canonical]

/-- Where the interval of `x` lies below the numbers of its exponent, it is that of a power of two
and reaches less than a quarter. -/
theorem Covers.carries {x : Binary64} {v : ℚ} (h : x.Covers v) (least : x.exponent ≠ -1074)
    (below : v < 2 ^ (x.exponent + 52)) :
    x.significand = fullSignificand ∧ (fullSignificand - 1 / 4) * 2 ^ x.exponent ≤ v := by
  have hu : (0 : ℚ) < 2 ^ x.exponent := by positivity
  have full : fullSignificand ≤ x.significand := x.canonical.2.2.2.resolve_right least
  have equal : x.significand = fullSignificand := by
    by_contra differ
    have more : fullSignificand + 1 ≤ x.significand := by omega
    have more' : (fullSignificand : ℚ) + 1 ≤ x.significand := by exact_mod_cast more
    have : (fullSignificand : ℚ) * 2 ^ x.exponent ≤ v :=
      le_trans (by gcongr; linarith [x.reachBelow_le]) h.le
    rw [fullSignificand_cast, ← zpow_add₀ (by norm_num), add_comm] at this
    linarith
  have reach : x.reachBelow = 1 / 4 := by
    have := x.canonical.2.1
    exact if_pos ⟨equal, by omega⟩
  refine ⟨equal, ?_⟩
  have := h.le
  rwa [equal, reach] at this

section Covers

variable {x : Binary64} (hnum : 0 < num) (hden : 0 < den) (h : x.Covers (num / den))
include hnum hden h

/-- Below the numbers of the exponent of `x` rounding uses the exponent before and carries. -/
theorem nearest_of_carry (least : x.exponent ≠ -1074)
    (below : (num : ℚ) / den < 2 ^ (x.exponent + 52)) : nearest x.negative num den = some x := by
  obtain ⟨full, low⟩ := h.carries least below
  have bound : -1074 ≤ x.exponent := x.canonical.2.1
  have unit : (2 : ℚ) ^ x.exponent = 2 * 2 ^ (x.exponent - 1) := by
    rw [mul_comm, ← zpow_add_one₀ (by norm_num), sub_add_cancel]
  have log : Int.log 2 ((num : ℚ) / den) = x.exponent + 51 := by
    apply log_eq _ (lt_of_lt_of_eq below (by congr 1; ring))
    refine le_trans ?_ low
    rw [show x.exponent + 51 = 51 + x.exponent by ring, zpow_add₀ (by norm_num)]
    gcongr
    norm_num [fullSignificand]
  have exponent := unitExponent_eq_log hnum hden
  rw [log, max_eq_left (by omega), show x.exponent + 51 - 52 = x.exponent - 1 by ring] at exponent
  have rounded :
      roundDiv (inUnits num den (x.exponent - 1)).1 (inUnits num den (x.exponent - 1)).2 =
        2 * fullSignificand := by
    apply roundDiv_inUnits hden
    · intro _
      rw [unit, fullSignificand_cast] at low
      rw [show x.exponent + 52 = 53 + (x.exponent - 1) by ring, zpow_add₀ (by norm_num)] at below
      push_cast [fullSignificand_cast]
      constructor
      · linarith
      · refine below.le.trans ?_
        gcongr
        norm_num
    · intro odd
      exact absurd (by decide) odd
  unfold nearest
  simp only [exponent, rounded]
  exact ofRounded?_carry full

/-- At the exponent of `x` rounding gives the significand of `x`. -/
theorem nearest_of_same (same : x.exponent = -1074 ∨ 2 ^ (x.exponent + 52) ≤ (num : ℚ) / den) :
    nearest x.negative num den = some x := by
  have hv : (0 : ℚ) < num / den := by positivity
  have bound : -1074 ≤ x.exponent := x.canonical.2.1
  have high := (Int.lt_zpow_iff_log_lt (b := 2) (by norm_num) hv).mp (by exact_mod_cast h.lt_top)
  have exponent : unitExponent num den = x.exponent := by
    rw [unitExponent_eq_log hnum hden]
    rcases same with least | low
    · omega
    · have := (Int.zpow_le_iff_le_log (b := 2) (by norm_num) hv).mp (by exact_mod_cast low)
      omega
  have rounded : roundDiv (inUnits num den x.exponent).1 (inUnits num den x.exponent).2 =
      x.significand := by
    have reach : ((x.significand : ℚ) - 1 / 2) * 2 ^ x.exponent ≤
        (x.significand - x.reachBelow) * 2 ^ x.exponent := by
      gcongr
      linarith [x.reachBelow_le]
    unfold Covers at h
    apply roundDiv_inUnits hden
    · intro even
      rw [if_pos even] at h
      exact ⟨reach.trans h.1, h.2⟩
    · intro odd
      rw [if_neg odd] at h
      exact ⟨reach.trans_lt h.1, h.2⟩
  unfold nearest
  simp only [exponent, rounded]
  exact ofRounded?_self x

end Covers

/-- Every quotient in the interval of `x` rounds to `x`. -/
theorem nearest_of_covers {x : Binary64} (hx : x.significand ≠ 0) (hden : 0 < den)
    (h : x.Covers (num / den)) : nearest x.negative num den = some x := by
  have hnum : 0 < num := by
    by_contra zero
    have pos := h.pos hx
    obtain rfl : num = 0 := by omega
    simp at pos
  by_cases carries : x.exponent ≠ -1074 ∧ (num : ℚ) / den < 2 ^ (x.exponent + 52)
  · exact nearest_of_carry hnum hden h carries.1 carries.2
  · apply nearest_of_same hnum hden h
    by_contra differ
    obtain ⟨least, below⟩ := not_or.mp differ
    exact carries ⟨least, not_le.mp below⟩

end Nearest

end Binary64

end StrictSchema
