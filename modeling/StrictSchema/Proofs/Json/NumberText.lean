import StrictSchema.Json.Printer
import StrictSchema.Json.Reader
import StrictSchema.Proofs.Number.Digits
import StrictSchema.Proofs.Number.Shortest

/-!
# The text of a number reads back

`readValue_number`: what `Number.chars` writes is read as the number it was written for, whatever
follows it, as long as that cannot belong to a number (`EndsNumber`). The reader takes the digits
before the point, those after it and the exponent apart; each layout of the printer is one way of
dividing the shortest decimal into the three, and the value they make is the same
(`floatNumber_of_value`).
-/

namespace StrictSchema

namespace Json

open Decimal

/-- Whether a text cannot go on a number that stands before it. -/
def EndsNumber : List Char → Prop
  | [] => True
  | c :: _ => ¬c.isDigit ∧ c ≠ '.' ∧ c ≠ 'e' ∧ c ≠ 'E'

/-- Whether a text does not start with a digit. -/
def EndsDigits : List Char → Prop
  | [] => True
  | c :: _ => ¬c.isDigit

theorem EndsNumber.endsDigits {rest : List Char} (h : EndsNumber rest) : EndsDigits rest := by
  cases rest with
  | nil => trivial
  | cons c cs => exact h.1

section Digits

variable {digits rest : List Char}

theorem takeWhile_digits (hd : ∀ c ∈ digits, c.isDigit) (hr : EndsDigits rest) :
    (digits ++ rest).takeWhile Char.isDigit = digits := by
  rw [List.takeWhile_append_of_pos hd]
  cases rest with
  | nil => simp
  | cons c cs => rw [List.takeWhile_cons_of_neg hr, List.append_nil]

theorem dropWhile_digits (hd : ∀ c ∈ digits, c.isDigit) (hr : EndsDigits rest) :
    (digits ++ rest).dropWhile Char.isDigit = rest := by
  rw [List.dropWhile_append_of_pos hd]
  cases rest with
  | nil => rfl
  | cons c cs => rw [List.dropWhile_cons_of_neg hr]

theorem digits_append_inj {others tail : List Char} (hd : ∀ c ∈ digits, c.isDigit)
    (ho : ∀ c ∈ others, c.isDigit) (hr : EndsDigits rest) (ht : EndsDigits tail)
    (h : digits ++ rest = others ++ tail) : digits = others ∧ rest = tail := by
  have before := takeWhile_digits hd hr
  have after := dropWhile_digits hd hr
  rw [h, takeWhile_digits ho ht] at before
  rw [h, dropWhile_digits ho ht] at after
  exact ⟨before.symm, after.symm⟩

end Digits

/-! ## The parts of a number -/

/-- A whole part as the format has it: digits without a zero in front, or zero alone. -/
def IsWhole (digits : List Char) : Prop :=
  digits = ['0'] ∨ (digits ≠ [] ∧ digits.head? ≠ some '0' ∧ ∀ c ∈ digits, c.isDigit)

theorem isWhole_digitsOf (n : Nat) : IsWhole (digitsOf n) := by
  by_cases hn : n = 0
  · subst hn
    exact .inl rfl
  · exact .inr ⟨digitsOf_ne_nil n, head?_digitsOf_ne hn, fun c => isDigit_of_mem_digitsOf⟩

theorem isDigit_of_mem_zeros {k : Nat} {c : Char} (h : c ∈ List.replicate k '0') : c.isDigit := by
  rw [List.eq_of_mem_replicate h]
  decide

/-- The digits of `n` with as many zeros in front as leave one of them before `places` others. -/
def padded (n places : Nat) : List Char :=
  List.replicate (places + 1 - (digitsOf n).length) '0' ++ digitsOf n

section Padded

variable {n : Nat} (places : Nat)

theorem isDigit_of_mem_padded {places : Nat} {c : Char} (h : c ∈ padded n places) : c.isDigit :=
  (List.mem_append.mp h).elim isDigit_of_mem_zeros isDigit_of_mem_digitsOf

theorem lt_length_padded (n places : Nat) : places < (padded n places).length := by
  unfold padded
  rw [List.length_append, List.length_replicate]
  omega

theorem ofDigits_padded : ofDigits (padded n places) = n := by
  unfold padded
  rw [ofDigits_append, ofDigits_zeros, ofDigits_digitsOf, mul_zero, zero_add]

/-- What stands before the places is a whole part: one of the zeros, or the first digits. -/
theorem isWhole_padded (hn : n ≠ 0) :
    IsWhole ((padded n places).take ((padded n places).length - places)) := by
  by_cases short : (digitsOf n).length ≤ places
  · left
    have length : (padded n places).length = places + 1 := by
      unfold padded
      rw [List.length_append, List.length_replicate]
      omega
    obtain ⟨m, hm⟩ : ∃ m, places + 1 - (digitsOf n).length = m + 1 :=
      ⟨places - (digitsOf n).length, by omega⟩
    rw [length, show places + 1 - places = 1 by omega, padded, hm, List.replicate_succ]
    rfl
  · right
    have none : padded n places = digitsOf n := by
      rw [padded, show places + 1 - (digitsOf n).length = 0 by omega]
      rfl
    refine ⟨?_, ?_, fun c hc => isDigit_of_mem_padded (List.mem_of_mem_take hc)⟩
    · have long := lt_length_padded n places
      rw [← List.length_pos_iff, List.length_take]
      omega
    · rw [none, List.head?_take, if_neg (by omega)]
      exact head?_digitsOf_ne hn

end Padded

/-- Digits with zeros after them, unless the number is zero. -/
theorem isWhole_zeros {n k : Nat} (hn : n = 0 → k = 0) :
    IsWhole (digitsOf n ++ List.replicate k '0') := by
  by_cases zero : n = 0
  · left
    rw [hn zero, zero]
    rfl
  · right
    refine ⟨by simp [digitsOf_ne_nil], ?_, ?_⟩
    · rw [List.head?_append_of_ne_nil _ (digitsOf_ne_nil _)]
      exact head?_digitsOf_ne zero
    · intro c hc
      exact (List.mem_append.mp hc).elim isDigit_of_mem_digitsOf isDigit_of_mem_zeros

/-- With a negative exponent there is a point among the digits or before them. -/
theorem exists_point (layout : Binary64.Layout) {n : Nat} {e : Int} (hn : n ≠ 0) (he : e < 0) :
    ∃ whole fraction, layout.positional (digitsOf n) e = whole ++ '.' :: fraction ∧
      IsWhole whole ∧ fraction ≠ [] ∧ (∀ c ∈ fraction, c.isDigit) ∧
      ofDigits (whole ++ fraction) = n ∧ (fraction.length : Int) = -e := by
  have places : ((-e).toNat : Int) = -e := Int.toNat_of_nonneg (by omega)
  rw [Binary64.Layout.positional, if_neg (not_le.mpr he)]
  generalize (-e).toNat = k at places ⊢
  have long := lt_length_padded n k
  have length : ((padded n k).drop ((padded n k).length - k)).length = k := by
    rw [List.length_drop]
    omega
  refine ⟨_, _, rfl, isWhole_padded k hn, ?_, ?_, ?_, ?_⟩
  · rw [← List.length_pos_iff]
    exact lt_of_lt_of_eq (by omega) length.symm
  · exact fun c hc => isDigit_of_mem_padded (List.mem_of_mem_drop hc)
  · exact (congrArg ofDigits (List.take_append_drop _ _)).trans (ofDigits_padded k)
  · exact (congrArg Nat.cast length).trans places

theorem readNumber_cons {negative : Bool} {c : Char} {rest : List Char} (nonzero : c ≠ '0')
    (digit : c.isDigit) : readNumber negative (c :: rest) =
      afterWhole negative (c :: rest.takeWhile Char.isDigit) (rest.dropWhile Char.isDigit) := by
  rw [readNumber]
  · rw [if_pos digit]
  · exact nonzero

/-- The digits before the point are read as far as they go. -/
theorem readNumber_whole {negative : Bool} {whole rest : List Char} (hw : IsWhole whole)
    (hr : EndsDigits rest) :
    readNumber negative (whole ++ rest) = afterWhole negative whole rest := by
  rcases hw with rfl | ⟨nonempty, head, digits⟩
  · cases rest with
    | nil => rfl
    | cons c cs =>
      show (if c.isDigit then _ else _) = _
      rw [if_neg hr]
      rfl
  · cases whole with
    | nil => exact absurd rfl nonempty
    | cons c cs =>
      have first : c ≠ '0' := fun eq => head (by rw [eq]; rfl)
      have more : ∀ d ∈ cs, d.isDigit := fun d hd => digits d (List.mem_cons_of_mem _ hd)
      rw [List.cons_append, readNumber_cons first (digits c List.mem_cons_self),
        takeWhile_digits more hr, dropWhile_digits more hr]

/-- Without a point and an exponent the digits are an integer. -/
theorem afterWhole_end {negative : Bool} {whole rest : List Char} (hr : EndsNumber rest) :
    afterWhole negative whole rest = wholeNumber negative whole rest := by
  cases rest with
  | nil => rfl
  | cons c cs =>
    obtain ⟨-, point, lower, upper⟩ := hr
    rw [afterWhole]
    · rw [if_neg (by simp [lower, upper])]
    · exact point

/-- Digits after a point with nothing more. -/
theorem afterWhole_fraction {negative : Bool} {whole fraction rest : List Char}
    (nonempty : fraction ≠ []) (digits : ∀ c ∈ fraction, c.isDigit) (hr : EndsNumber rest) :
    afterWhole negative whole ('.' :: (fraction ++ rest)) =
      floatNumber negative whole fraction 0 rest := by
  obtain ⟨d, ds, rfl⟩ := List.exists_cons_of_ne_nil nonempty
  rw [afterWhole]
  simp only [takeWhile_digits digits hr.endsDigits, dropWhile_digits digits hr.endsDigits]
  cases rest with
  | nil => rfl
  | cons c cs =>
    obtain ⟨-, -, lower, upper⟩ := hr
    simp only [lower, upper, or_self, if_false]

/-- Digits after a point, or none and no point, before an exponent. -/
theorem afterWhole_exponent {negative : Bool} {whole fraction more : List Char}
    (digits : ∀ c ∈ fraction, c.isDigit) :
    afterWhole negative whole
        ((if fraction.isEmpty then [] else '.' :: fraction) ++ 'e' :: more) =
      readExponent negative whole fraction more := by
  cases fraction with
  | nil => rfl
  | cons d ds =>
    have ends : EndsDigits ('e' :: more) := by
      show ¬ 'e'.isDigit
      decide
    show afterWhole negative whole ('.' :: (d :: ds ++ 'e' :: more)) = _
    rw [afterWhole]
    simp only [takeWhile_digits digits ends, dropWhile_digits digits ends, true_or, if_true]

/-! ## Exponents -/

theorem exponentDigits_append {digits rest : List Char} {n : Nat}
    (hd : ∀ c ∈ digits, c.isDigit) (hr : EndsDigits rest)
    (bound : Nat.ofDigitChars 10 digits n ≤ greatestExponent) :
    exponentDigits n (digits ++ rest) = .ok (Nat.ofDigitChars 10 digits n, rest) := by
  induction digits generalizing n with
  | nil =>
    cases rest with
    | nil => rfl
    | cons c cs =>
      show (if c.isDigit then _ else _) = _
      rw [if_neg hr]
      rfl
  | cons d ds ih =>
    rw [Nat.ofDigitChars_cons] at bound ⊢
    -- what has been read so far is no greater than the whole
    have part : 10 * n + (d.toNat - '0'.toNat) ≤ greatestExponent := by
      refine le_trans ?_ bound
      rw [Nat.ofDigitChars_eq_ofDigitChars_zero]
      exact (Nat.le_mul_of_pos_left _ (by positivity)).trans (Nat.le_add_right _ _)
    rw [List.cons_append, exponentDigits, if_pos (hd d List.mem_cons_self)]
    simp only [if_neg (not_lt.mpr part)]
    exact ih (fun c hc => hd c (List.mem_cons_of_mem _ hc)) bound

/-- An exponent in range is read with its sign. -/
theorem readExponent_digits {negative : Bool} {whole fraction rest : List Char} {e : Int}
    (bound : e.natAbs ≤ greatestExponent) (hr : EndsDigits rest) :
    readExponent negative whole fraction
        ((if e < 0 then '-' else '+') :: (digitsOf e.natAbs ++ rest)) =
      floatNumber negative whole fraction e rest := by
  have read : exponentDigits 0 (digitsOf e.natAbs ++ rest) = .ok (e.natAbs, rest) := by
    have value : Nat.ofDigitChars 10 (digitsOf e.natAbs) 0 = e.natAbs := ofDigits_digitsOf _
    have := exponentDigits_append (n := 0) (fun c => isDigit_of_mem_digitsOf) hr
      (value.trans_le bound)
    rwa [value] at this
  obtain ⟨d, ds, first⟩ := List.exists_cons_of_ne_nil (digitsOf_ne_nil e.natAbs)
  have digit : d.isDigit := isDigit_of_mem_digitsOf (first ▸ List.mem_cons_self)
  rw [first, List.cons_append] at read ⊢
  by_cases sign : e < 0
  · have value : -(e.natAbs : Int) = e := by omega
    rw [if_pos sign, readExponent]
    simp only [digit, Bool.not_true, Bool.false_eq_true, if_false, read, if_true, value]
  · have value : (e.natAbs : Int) = e := by omega
    rw [if_neg sign, readExponent]
    simp only [digit, Bool.not_true, Bool.false_eq_true, if_false, read, value]

/-! ## Floating-point numbers -/

section Float

variable {x : Binary64} {whole fraction rest : List Char} {d : Decimal} {e : Int}

/-- Parts that make the shortest decimal of `x` are read as `x`. -/
theorem floatNumber_of_value
    (h : (⟨ofDigits (whole ++ fraction), e - fraction.length⟩ : Decimal).value =
      (x.shortest Number.layout.tie).value) :
    floatNumber x.negative whole fraction e rest = .ok (.float x, rest) := by
  have read := Binary64.ofDecimal_of_value_eq h
  unfold floatNumber
  rw [read]

/-- Whether a text is read as a number after its sign, whatever follows. -/
def ReadsAs (negative : Bool) (written : List Char) (n : Number) : Prop :=
  (∃ c ∈ written.head?, c.isDigit) ∧
    ∀ rest, EndsNumber rest → readNumber negative (written ++ rest) = .ok (n, rest)

theorem IsWhole.head_isDigit (hw : IsWhole whole) (more : List Char) :
    ∃ c ∈ (whole ++ more).head?, c.isDigit := by
  rcases hw with rfl | ⟨nonempty, -, digits⟩
  · exact ⟨'0', rfl, by decide⟩
  · obtain ⟨c, cs, rfl⟩ := List.exists_cons_of_ne_nil nonempty
    exact ⟨c, rfl, digits c List.mem_cons_self⟩

/-- A whole part, a point and a fraction. -/
theorem readsAs_point (hw : IsWhole whole) (nonempty : fraction ≠ [])
    (digits : ∀ c ∈ fraction, c.isDigit)
    (h : (⟨ofDigits (whole ++ fraction), -fraction.length⟩ : Decimal).value =
      (x.shortest Number.layout.tie).value) :
    ReadsAs x.negative (whole ++ '.' :: fraction) (.float x) := by
  refine ⟨hw.head_isDigit _, fun rest hr => ?_⟩
  have point : EndsDigits ('.' :: (fraction ++ rest)) := by
    show ¬ '.'.isDigit
    decide
  rw [List.append_assoc, List.cons_append, readNumber_whole hw point,
    afterWhole_fraction nonempty digits hr]
  apply floatNumber_of_value
  rwa [zero_sub]

/-- One digit before the point, and the exponent. -/
theorem readsAs_scientific (hd : d.digits ≠ 0)
    (bound : (d.exponent + (digitsOf d.digits).length - 1).natAbs ≤ greatestExponent)
    (h : d.value = (x.shortest Number.layout.tie).value) :
    ReadsAs x.negative
      (Binary64.scientific (digitsOf d.digits) (d.exponent + (digitsOf d.digits).length - 1))
      (.float x) := by
  obtain ⟨c, cs, first⟩ := List.exists_cons_of_ne_nil (digitsOf_ne_nil d.digits)
  have all : ∀ a ∈ c :: cs, a.isDigit := fun a ha => isDigit_of_mem_digitsOf (first ▸ ha)
  have nonzero : c ≠ '0' := by
    have := head?_digitsOf_ne hd
    rw [first] at this
    simpa using this
  have hw : IsWhole [c] := by
    refine .inr ⟨List.cons_ne_nil _ _, by simpa using nonzero, fun a ha => ?_⟩
    exact all a (List.mem_cons.mpr (.inl (List.mem_singleton.mp ha)))
  have value : ofDigits (c :: cs) = d.digits := by rw [← first, ofDigits_digitsOf]
  rw [first] at bound ⊢
  generalize he : d.exponent + (c :: cs).length - 1 = e at bound ⊢
  have written : Binary64.scientific (c :: cs) e = [c] ++ ((if cs.isEmpty then [] else '.' :: cs) ++
      'e' :: (if e < 0 then '-' else '+') :: digitsOf e.natAbs) := by
    simp [Binary64.scientific]
  rw [written]
  refine ⟨hw.head_isDigit _, fun rest hr => ?_⟩
  have point : EndsDigits ((if cs.isEmpty then [] else '.' :: cs) ++
      'e' :: (if e < 0 then '-' else '+') :: (digitsOf e.natAbs ++ rest)) := by
    cases cs with
    | nil =>
      show ¬ 'e'.isDigit
      decide
    | cons a as =>
      show ¬ '.'.isDigit
      decide
  simp only [List.append_assoc, List.cons_append, List.nil_append]
  rw [← List.singleton_append, readNumber_whole hw point,
    afterWhole_exponent fun a ha => all a (List.mem_cons_of_mem _ ha),
    readExponent_digits bound hr.endsDigits]
  apply floatNumber_of_value
  rw [← h]
  have place : e - cs.length = d.exponent := by
    rw [← he, List.length_cons]
    push_cast
    ring
  rw [List.singleton_append, value, place]

/-- Digits with the point among them or before them. -/
theorem readsAs_fraction (hd : d.digits ≠ 0) (negative : d.exponent < 0)
    (h : d.value = (x.shortest Number.layout.tie).value) :
    ReadsAs x.negative (Number.layout.positional (digitsOf d.digits) d.exponent) (.float x) := by
  obtain ⟨whole, fraction, written, hw, nonempty, digits, value, length⟩ :=
    exists_point Number.layout hd negative
  rw [written]
  apply readsAs_point hw nonempty digits
  rw [value, length, neg_neg]
  exact h

/-- Digits with zeros after them, and a zero after the point. -/
theorem readsAs_whole (hd : d.digits = 0 → d.exponent = 0) (negative : ¬ d.exponent < 0)
    (h : d.value = (x.shortest Number.layout.tie).value) :
    ReadsAs x.negative (Number.layout.positional (digitsOf d.digits) d.exponent) (.float x) := by
  have places : (d.exponent.toNat : Int) = d.exponent := Int.toNat_of_nonneg (by omega)
  simp only [Binary64.Layout.positional, if_pos (not_lt.mp negative), Number.layout, if_true]
  generalize d.exponent.toNat = k at places ⊢
  have hw : IsWhole (digitsOf d.digits ++ List.replicate k '0') := isWhole_zeros fun zero => by
    have := hd zero
    omega
  apply readsAs_point hw (List.cons_ne_nil _ _)
  · intro c hc
    rw [List.mem_singleton.mp hc]
    decide
  · have digits : ofDigits (digitsOf d.digits ++ List.replicate k '0' ++ ['0']) =
        d.digits * 10 ^ (k + 1) := by
      rw [List.append_assoc, ← List.replicate_succ', ofDigits_append, ofDigits_zeros,
        ofDigits_digitsOf, List.length_replicate]
      ring
    rw [← h]
    unfold value
    simp only [digits, List.length_singleton, ← places]
    push_cast
    rw [zpow_neg_one, zpow_natCast, pow_succ]
    field_simp

/-- Zero has one digit, which stands before the point. -/
theorem shortest_zero (hd : d = x.shortest Number.layout.tie) (zero : d.digits = 0) :
    d = ⟨0, 0⟩ ∧ x.significand = 0 := by
  have hx : x.significand = 0 := by
    by_contra hx
    exact (Binary64.covers_shortest hx).digits_ne_zero hx (hd ▸ zero)
  exact ⟨hd.trans (Binary64.shortest_of_significand hx), hx⟩

theorem readsAs_layout (hd : d = x.shortest Number.layout.tie) :
    ReadsAs x.negative
      (if -5 ≤ d.exponent + (digitsOf d.digits).length - 1 ∧
          d.exponent + (digitsOf d.digits).length - 1 ≤ 15 then
        Number.layout.positional (digitsOf d.digits) d.exponent
      else Binary64.scientific (digitsOf d.digits) (d.exponent + (digitsOf d.digits).length - 1))
      (.float x) := by
  have value : d.value = (x.shortest Number.layout.tie).value := by rw [hd]
  by_cases near : -5 ≤ d.exponent + (digitsOf d.digits).length - 1 ∧
      d.exponent + (digitsOf d.digits).length - 1 ≤ 15
  · rw [if_pos near]
    by_cases negative : d.exponent < 0
    · refine readsAs_fraction (fun zero => ?_) negative value
      rw [(shortest_zero hd zero).1] at negative
      exact absurd negative (by decide)
    · refine readsAs_whole (fun zero => ?_) negative value
      rw [(shortest_zero hd zero).1]
  · have nonzero : d.digits ≠ 0 := by
      intro zero
      apply near
      rw [(shortest_zero hd zero).1]
      decide
    have hx : x.significand ≠ 0 := by
      intro hx
      apply nonzero
      rw [hd, Binary64.shortest_of_significand hx]
    have covers : x.Covers d.value := value ▸ Binary64.covers_shortest hx
    have bounds := covers.firstDigit_bounds hx
    rw [if_neg near]
    refine readsAs_scientific nonzero ?_ value
    unfold greatestExponent
    omega

end Float

/-! ## Numbers -/

theorem readsAs_integer {n : Int} (fits : FitsWord n) :
    ReadsAs (decide (n < 0)) (digitsOf n.natAbs) (.integer n fits) := by
  refine ⟨List.append_nil (digitsOf n.natAbs) ▸ (isWhole_digitsOf _).head_isDigit [],
    fun rest hr => ?_⟩
  rw [readNumber_whole (isWhole_digitsOf _) hr.endsDigits, afterWhole_end hr]
  have value : (if decide (n < 0) then -(ofDigits (digitsOf n.natAbs) : Int)
      else ofDigits (digitsOf n.natAbs)) = n := by
    rw [ofDigits_digitsOf]
    by_cases sign : n < 0
    · simp only [sign, decide_true, if_true]
      omega
    · simp only [sign, decide_false, Bool.false_eq_true, if_false]
      omega
  have small : FitsWord n ∧ ¬(decide (n < 0) = true ∧ n = 0) := by
    refine ⟨fits, fun ⟨sign, zero⟩ => ?_⟩
    have := of_decide_eq_true sign
    omega
  unfold wholeNumber
  simp only [value]
  rw [dif_pos small]

/-- The text of a number is a sign, if any, and a text that is read as the number. -/
theorem exists_readsAs (n : Number) :
    ∃ negative written, n.chars = (if negative then '-' :: written else written) ∧
      ReadsAs negative written n := by
  cases n with
  | integer n fits =>
    refine ⟨decide (n < 0), digitsOf n.natAbs, ?_, readsAs_integer fits⟩
    by_cases sign : n < 0 <;> simp [Number.chars, sign]
  | float x =>
    exact ⟨x.negative, _, rfl, readsAs_layout rfl⟩

end Json

end StrictSchema
