import Mathlib.Algebra.Group.Nat.Defs
import Mathlib.Data.List.Basic
import Mathlib.Data.Nat.Init
import StrictSchema.Number.Decimal

/-!
# Decimal digits

Writing a natural number and reading its digits are inverse to each other
(`Decimal.ofDigits_digitsOf`, `Decimal.digitsOf_ofDigits`), apart from zeros in front, which are
never written.
-/

namespace StrictSchema.Decimal

theorem ofDigits_append (as bs : List Char) :
    ofDigits (as ++ bs) = 10 ^ bs.length * ofDigits as + ofDigits bs := by
  show Nat.ofDigitChars 10 (as ++ bs) 0 = _
  rw [Nat.ofDigitChars_append, Nat.ofDigitChars_eq_ofDigitChars_zero]
  rfl

theorem ofDigits_zeros (k : Nat) : ofDigits (List.replicate k '0') = 0 := by
  induction k with
  | zero => rfl
  | succ k ih =>
    rw [List.replicate_succ', ofDigits_append, ih]
    rfl

theorem ofDigits_digitsOf (n : Nat) : ofDigits (digitsOf n) = n := Nat.ofDigitChars_ten_toDigits

theorem digitsOf_injective : Function.Injective digitsOf :=
  Function.LeftInverse.injective ofDigits_digitsOf

theorem isDigit_of_mem_digitsOf {n : Nat} {c : Char} (h : c ∈ digitsOf n) : c.isDigit :=
  Nat.isDigit_of_mem_toDigits (by decide) (by decide) h

theorem digitsOf_ne_nil (n : Nat) : digitsOf n ≠ [] := Nat.toDigits_ne_nil

theorem digitChar_ne_zero : ∀ n < 10, n ≠ 0 → n.digitChar ≠ '0' := by decide

/-- A number other than zero has no zero in front. -/
theorem head?_digitsOf_ne {n : Nat} (hn : n ≠ 0) : (digitsOf n).head? ≠ some '0' := by
  induction n using Nat.strong_induction_on with
  | _ n ih =>
    unfold digitsOf
    by_cases small : n < 10
    · rw [Nat.toDigits_of_lt_base small]
      simpa using digitChar_ne_zero n small hn
    · rw [Nat.toDigits_of_base_le (by decide) (Nat.not_lt.mp small),
        List.head?_append_of_ne_nil _ Nat.toDigits_ne_nil]
      exact ih (n / 10) (by omega) (by omega)

/-! ## Writing what was read -/

section Read

variable {c : Char} {digits : List Char} {n : Nat}

/-- The number that a digit stands for. -/
def digitValue (c : Char) : Nat := c.toNat - '0'.toNat

theorem digitValue_lt (hc : c.isDigit) : digitValue c < 10 := by
  obtain ⟨-, high⟩ := Char.isDigit_iff_toNat.1 hc
  have nine : '9'.toNat = 57 := rfl
  have zero : '0'.toNat = 48 := rfl
  unfold digitValue
  omega

theorem digitsOf_digitValue (hc : c.isDigit) : digitsOf (digitValue c) = [c] := by
  obtain ⟨low, -⟩ := Char.isDigit_iff_toNat.1 hc
  have zero : '0'.toNat = 48 := rfl
  have same : (digitValue c).digitChar.toNat = c.toNat := by
    rw [Nat.toNat_digitChar_of_lt_ten (digitValue_lt hc)]
    unfold digitValue
    omega
  rw [digitsOf, Nat.toDigits_of_lt_base (digitValue_lt hc), Char.toNat_inj.1 same]

theorem digitValue_ne_zero (hc : c.isDigit) (h : c ≠ '0') : digitValue c ≠ 0 := by
  intro zero
  have written := digitsOf_digitValue hc
  rw [zero] at written
  exact h (List.singleton_inj.1 written).symm

theorem digitsOf_snoc (hn : n ≠ 0) (hc : c.isDigit) :
    digitsOf (10 * n + digitValue c) = digitsOf n ++ [c] := by
  rw [← digitsOf_digitValue hc]
  exact (Nat.toDigits_append_toDigits (by decide) (Nat.pos_of_ne_zero hn) (digitValue_lt hc)).symm

theorem ofDigitChars_cons (c : Char) (cs : List Char) (n : Nat) :
    Nat.ofDigitChars 10 (c :: cs) n = Nat.ofDigitChars 10 cs (10 * n + digitValue c) :=
  Nat.ofDigitChars_cons

theorem ofDigits_cons (c : Char) (cs : List Char) :
    ofDigits (c :: cs) = Nat.ofDigitChars 10 cs (digitValue c) := by
  show Nat.ofDigitChars 10 (c :: cs) 0 = _
  rw [ofDigitChars_cons, Nat.mul_zero, Nat.zero_add]

/-- Digits that are read after a number other than zero are written after it. -/
theorem digitsOf_ofDigitChars (hn : n ≠ 0) (hd : ∀ c ∈ digits, c.isDigit) :
    digitsOf (Nat.ofDigitChars 10 digits n) = digitsOf n ++ digits := by
  induction digits generalizing n with
  | nil => exact (List.append_nil _).symm
  | cons c cs ih =>
    obtain ⟨hc, hcs⟩ := List.forall_mem_cons.1 hd
    have next : 10 * n + digitValue c ≠ 0 := by omega
    rw [ofDigitChars_cons, ih next hcs, digitsOf_snoc hn hc, List.append_assoc,
      List.singleton_append]

/-- Digits without a zero in front are written as they were read. -/
theorem digitsOf_ofDigits (hd : ∀ c ∈ digits, c.isDigit) (nonempty : digits ≠ [])
    (canonical : digits.head? = some '0' → digits = ['0']) :
    digitsOf (ofDigits digits) = digits := by
  obtain ⟨c, cs, rfl⟩ := List.exists_cons_of_ne_nil nonempty
  obtain ⟨hc, hcs⟩ := List.forall_mem_cons.1 hd
  by_cases zero : c = '0'
  · rw [canonical (congrArg some zero)]
    rfl
  · rw [ofDigits_cons, digitsOf_ofDigitChars (digitValue_ne_zero hc zero) hcs,
      digitsOf_digitValue hc, List.singleton_append]

end Read

end StrictSchema.Decimal
