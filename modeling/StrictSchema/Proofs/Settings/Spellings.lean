import Mathlib.Data.List.TakeWhile
import StrictSchema.Proofs.Json.NumberText
import StrictSchema.Proofs.Text.LowerCase
import StrictSchema.Proofs.Text.Split
import StrictSchema.Settings.Convert
import StrictSchema.Settings.Environment

/-!
# Texts of variables

The text of a variable is read as the plainest value that it spells before it is known that a text
is wanted, and then that value is written (`Scalar.arrival`). What is written for a truth value or a
number is read as it, and so it arrives as it was (`Scalar.arrival_scalarText`); the one exception
is the text of the negative zero, which is read as an integer. So the texts that arrive as they were
are those that spell no such value and those that are written for one
(`Scalar.arrival_eq_self_iff`).
-/

namespace StrictSchema

open Decimal

/-! ## Numerals -/

section Whole

variable {digits : List Char}

theorem Json.IsWhole.isDigit (hw : Json.IsWhole digits) {c : Char} (mem : c ∈ digits) :
    c.isDigit := by
  rcases hw with rfl | ⟨-, -, all⟩
  · rw [List.mem_singleton.1 mem]
    decide
  · exact all c mem

theorem Json.IsWhole.exists_cons (hw : Json.IsWhole digits) :
    ∃ c cs, digits = c :: cs ∧ c.isDigit := by
  rcases hw with rfl | ⟨nonempty, -, all⟩
  · exact ⟨'0', [], rfl, by decide⟩
  · obtain ⟨c, cs, rfl⟩ := List.exists_cons_of_ne_nil nonempty
    exact ⟨c, cs, rfl, all c List.mem_cons_self⟩

/-- A whole part is what is written for the number that it spells. -/
theorem Json.IsWhole.digitsOf_ofDigits (hw : Json.IsWhole digits) :
    digitsOf (ofDigits digits) = digits := by
  rcases hw with rfl | ⟨nonempty, head, all⟩
  · rfl
  · exact Decimal.digitsOf_ofDigits all nonempty fun zero => absurd zero head

end Whole

namespace Scalar

/-- A whole part, and a fraction after a point, if there is one. -/
def unsigned (whole fraction : List Char) : List Char :=
  whole ++ (if fraction.isEmpty then [] else '.' :: fraction)

/-- A numeral with a sign, if it is negative. -/
def numeral (negative : Bool) (whole fraction : List Char) : List Char :=
  if negative then '-' :: unsigned whole fraction else unsigned whole fraction

/-- The integer that digits with a sign spell. -/
def signedValue (negative : Bool) (digits : List Char) : Int :=
  if negative then -ofDigits digits else ofDigits digits

section Numeral

variable {negative : Bool} {whole fraction : List Char}

theorem isDigit_ne {c : Char} (digit : c.isDigit) {other : Char} (h : other.isDigit = false) :
    c ≠ other := by
  rintro rfl
  rw [digit] at h
  cases h

theorem toNat_of_isDigit {c : Char} (digit : c.isDigit) : 48 ≤ c.toNat ∧ c.toNat ≤ 57 :=
  Char.isDigit_iff_toNat.1 digit

theorem signed_numeral (hw : Json.IsWhole whole) (fraction : List Char) :
    signed (numeral negative whole fraction) = (negative, unsigned whole fraction) := by
  obtain ⟨c, cs, rfl, digit⟩ := hw.exists_cons
  cases negative with
  | true => rfl
  | false =>
    have plus : c ≠ '+' := isDigit_ne digit (by decide)
    have minus : c ≠ '-' := isDigit_ne digit (by decide)
    show signed (c :: (cs ++ _)) = _
    rw [signed]
    · rfl
    · exact fun _ same => plus (List.cons.inj same).1
    · exact fun _ same => minus (List.cons.inj same).1

/-- A numeral starts with a sign or a digit, and so it spells no truth value. -/
theorem lowerCase_numeral_ne (negative : Bool) (hw : Json.IsWhole whole) (fraction : List Char)
    {word : String} (letter : ∃ c ∈ word.toList.head?, 58 ≤ c.toNat) :
    Text.lowerCase (String.ofList (numeral negative whole fraction)) ≠ word := by
  obtain ⟨letter, first, late⟩ := letter
  obtain ⟨c, cs, start, early⟩ :
      ∃ c cs, numeral negative whole fraction = c :: cs ∧ c.toNat < 58 := by
    obtain ⟨c, cs, rfl, digit⟩ := hw.exists_cons
    have := (toNat_of_isDigit digit).2
    cases negative with
    | true => exact ⟨'-', _, rfl, by decide⟩
    | false => exact ⟨c, _, rfl, by omega⟩
  intro same
  have head := Text.head?_lowerCase (c := c) (by omega) cs
  rw [← start, same, first] at head
  have : letter = c := Option.some.inj head
  subst this
  omega

theorem integer?_numeral (hw : Json.IsWhole whole) :
    integer? (numeral negative whole fraction) =
      if fraction = [] ∧ FitsSigned (signedValue negative whole) then
        some (signedValue negative whole)
      else none := by
  rw [integer?, signed_numeral hw]
  cases fraction with
  | nil =>
    have digits : whole.all Char.isDigit = true := List.all_eq_true.2 fun c mem => hw.isDigit mem
    obtain ⟨c, cs, rfl, -⟩ := hw.exists_cons
    simp only [unsigned, List.isEmpty_nil, if_true, List.append_nil, List.isEmpty_cons, digits,
      Bool.not_true, Bool.or_false, Bool.false_eq_true, if_false, true_and]
    rfl
  | cons d ds =>
    have point : (unsigned whole (d :: ds)).all Char.isDigit = false :=
      List.all_eq_false.2 ⟨'.', List.mem_append_right whole List.mem_cons_self, by decide⟩
    simp [point]

theorem toLower_of_isDigit {c : Char} (digit : c.isDigit) : c.toLower = c := by
  have early := (toNat_of_isDigit digit).2
  refine dif_neg fun capital => ?_
  have late : 65 ≤ c.toNat := capital.1
  omega

/-- A text that starts with a digit is none of the words for what is not finite. -/
theorem wordOf_ne {c : Char} (digit : c.isDigit) (cs : List Char) {word : String}
    (letter : ∃ c ∈ word.toList.head?, c.isDigit = false) :
    String.ofList ((c :: cs).map Char.toLower) ≠ word := by
  obtain ⟨letter, first, other⟩ := letter
  rintro rfl
  rw [String.toList_ofList, List.map_cons, List.head?_cons, toLower_of_isDigit digit] at first
  cases first
  rw [digit] at other
  cases other

theorem of_mem_unsigned (hw : Json.IsWhole whole) (hf : ∀ c ∈ fraction, c.isDigit) {c : Char}
    (mem : c ∈ unsigned whole fraction) : c.isDigit ∨ c = '.' := by
  rcases List.mem_append.1 mem with inWhole | after
  · exact .inl (hw.isDigit inWhole)
  · cases fraction with
    | nil => cases after
    | cons d ds =>
      rcases List.mem_cons.1 after with point | inFraction
      · exact .inr point
      · exact .inl (hf c inFraction)

/-- The point of a numeral stands between its parts. -/
theorem cut_unsigned (hw : Json.IsWhole whole) (fraction : List Char) :
    (Text.cut '.' (unsigned whole fraction)).getD (unsigned whole fraction, []) =
      (whole, fraction) := by
  have before : '.' ∉ whole := fun mem => absurd (hw.isDigit mem) (by decide)
  cases fraction with
  | nil =>
    rw [unsigned, List.isEmpty_nil, if_pos rfl, List.append_nil, Text.cut_of_notMem before]
    rfl
  | cons d ds => exact congrArg (Option.getD · _) (Text.cut_append before)

/-- A numeral is read as the floating-point number next to the decimal that it spells. -/
theorem real?_numeral (hw : Json.IsWhole whole) (hf : ∀ c ∈ fraction, c.isDigit) :
    real? (numeral negative whole fraction) =
      some (.ofDecimal negative (ofDigits (whole ++ fraction)) (-fraction.length)) := by
  have noExponent : ∀ c ∈ unsigned whole fraction, (!(c = 'e' || c = 'E')) = true := by
    intro c mem
    rcases of_mem_unsigned hw hf mem with digit | rfl
    · have lower : c ≠ 'e' := isDigit_ne digit (by decide)
      have upper : c ≠ 'E' := isDigit_ne digit (by decide)
      simp [lower, upper]
    · decide
  have words {word : String} (letter : ∃ c ∈ word.toList.head?, c.isDigit = false) :
      String.ofList ((unsigned whole fraction).map Char.toLower) ≠ word := by
    obtain ⟨c, cs, rfl, digit⟩ := hw.exists_cons
    exact wordOf_ne digit _ letter
  have notInfinite : ¬ (String.ofList ((unsigned whole fraction).map Char.toLower) = "inf" ∨
      String.ofList ((unsigned whole fraction).map Char.toLower) = "infinity") :=
    not_or.2 ⟨words ⟨'i', rfl, rfl⟩, words ⟨'i', rfl, rfl⟩⟩
  have notNan : String.ofList ((unsigned whole fraction).map Char.toLower) ≠ "nan" :=
    words ⟨'n', rfl, rfl⟩
  have digits : (whole ++ fraction).all Char.isDigit = true :=
    List.all_eq_true.2 fun c mem => (List.mem_append.1 mem).elim hw.isDigit (hf c)
  have nonempty : (whole ++ fraction).isEmpty = false := by
    obtain ⟨c, cs, rfl, -⟩ := hw.exists_cons
    rfl
  rw [real?, signed_numeral hw]
  simp only [if_neg notInfinite, if_neg notNan, List.takeWhile_eq_self_iff.2 noExponent,
    List.dropWhile_eq_nil_iff.2 noExponent, cut_unsigned hw, digits, nonempty, Bool.not_true,
    Bool.or_self, Bool.false_eq_true, if_false, exponent?, Option.map_some, zero_sub]

/-- A numeral is read as an integer if it has no fraction and 64 bits hold it, and else as a
floating-point number. -/
theorem ofText_numeral (hw : Json.IsWhole whole) (hf : ∀ c ∈ fraction, c.isDigit) :
    ofText (String.ofList (numeral negative whole fraction)) =
      if fraction = [] ∧ FitsSigned (signedValue negative whole) then
        .integer (signedValue negative whole)
      else .real (.ofDecimal negative (ofDigits (whole ++ fraction)) (-fraction.length)) := by
  have notTrue := lowerCase_numeral_ne negative hw fraction
    (⟨'t', rfl, by decide⟩ : ∃ c ∈ "true".toList.head?, 58 ≤ c.toNat)
  have notFalse := lowerCase_numeral_ne negative hw fraction
    (⟨'f', rfl, by decide⟩ : ∃ c ∈ "false".toList.head?, 58 ≤ c.toNat)
  simp only [ofText, if_neg notTrue, if_neg notFalse, String.toList_ofList, integer?_numeral hw,
    real?_numeral hw hf]
  by_cases whole : fraction = [] ∧ FitsSigned (signedValue negative whole)
  · rw [if_pos whole, if_pos whole]
  · rw [if_neg whole, if_neg whole]

end Numeral

/-! ## What is written for numbers -/

section Number

variable {negative : Bool} {whole : List Char}

/-- A finite number is written as a numeral whose decimal is the shortest one of the number. -/
theorem exists_numeral (x : Binary64) :
    ∃ whole fraction, x.text SettingTree.textLayout = numeral x.negative whole fraction ∧
      Json.IsWhole whole ∧ (∀ c ∈ fraction, c.isDigit) ∧
      (⟨ofDigits (whole ++ fraction), -fraction.length⟩ : Decimal).value =
        (x.shortest .up).value := by
  have written : x.text SettingTree.textLayout =
      if x.negative then
        '-' :: SettingTree.textLayout.positional (digitsOf (x.shortest .up).digits)
          (x.shortest .up).exponent
      else SettingTree.textLayout.positional (digitsOf (x.shortest .up).digits)
        (x.shortest .up).exponent := rfl
  have zero : (x.shortest .up).digits = 0 → (x.shortest .up).exponent = 0 := by
    intro none
    have hx : x.significand = 0 := by
      by_contra hx
      exact (Binary64.covers_shortest hx).digits_ne_zero hx none
    rw [Binary64.shortest_of_significand hx]
  rw [written]
  generalize x.shortest .up = d at zero ⊢
  by_cases he : d.exponent < 0
  · have hn : d.digits ≠ 0 := fun none => absurd (zero none) (by omega)
    obtain ⟨whole, fraction, layout, hw, nonempty, digits, value, length⟩ :=
      Json.exists_point SettingTree.textLayout hn he
    have parts : unsigned whole fraction = whole ++ '.' :: fraction := by
      rw [unsigned, if_neg (by simpa using nonempty)]
    refine ⟨whole, fraction, ?_, hw, digits, ?_⟩
    · rw [layout, ← parts, numeral]
    · rw [value, length, neg_neg]
  · have places : (d.exponent.toNat : Int) = d.exponent := Int.toNat_of_nonneg (by omega)
    have hw : Json.IsWhole (digitsOf d.digits ++ List.replicate d.exponent.toNat '0') :=
      Json.isWhole_zeros fun none => by rw [zero none]; rfl
    refine ⟨_, [], ?_, hw, nofun, ?_⟩
    · rw [Binary64.Layout.positional, if_pos (not_lt.mp he)]
      rfl
    · have power : (10 : ℚ) ^ d.exponent = 10 ^ d.exponent.toNat := by
        rw [← zpow_natCast, places]
      rw [List.append_nil, ofDigits_append, ofDigits_zeros, ofDigits_digitsOf, add_zero,
        List.length_replicate, Decimal.value, Decimal.value, power]
      push_cast
      rw [List.length_nil, Nat.cast_zero, neg_zero, zpow_zero, mul_one, mul_comm]

theorem scalarText_integer (n : Int) :
    SettingTree.scalarText (.integer n) =
      String.ofList (numeral (decide (n < 0)) (digitsOf n.natAbs) []) := by
  by_cases negative : n < 0 <;>
    simp [SettingTree.scalarText, numeral, unsigned, negative]

/-- An integer is written as it was spelled, unless it was spelled as negative zero. -/
theorem scalarText_signedValue (hw : Json.IsWhole whole)
    (h : numeral negative whole [] ≠ ['-', '0']) :
    SettingTree.scalarText (.integer (signedValue negative whole)) =
      String.ofList (numeral negative whole []) := by
  have digits : digitsOf (signedValue negative whole).natAbs = whole := by
    have magnitude : (signedValue negative whole).natAbs = ofDigits whole := by
      unfold signedValue
      split <;> omega
    rw [magnitude, hw.digitsOf_ofDigits]
  have sign : decide (signedValue negative whole < 0) = negative := by
    cases negative with
    | false => exact decide_eq_false (by simp [signedValue])
    | true =>
      have nonzero : ofDigits whole ≠ 0 := by
        intro zero
        have alone : whole = ['0'] := by
          rw [← hw.digitsOf_ofDigits, zero]
          rfl
        exact h (by rw [alone]; rfl)
      exact decide_eq_true (by simp only [signedValue, if_true]; omega)
  rw [scalarText_integer, sign, digits]

end Number

/-! ## What arrives -/

/-- The text that a text setting gets from a variable: the one of the value that is read. -/
def arrival (t : String) : String := SettingTree.scalarText (ofText t)

/-- A value other than a text that a variable can give. -/
def IsTyped : Scalar → Prop
  | bool _ => True
  | integer n => FitsSigned n
  | real _ => True
  | text _ => False

/-- A numeral arrives as it is if the floating-point number that it spells is written so, where it
is not read as an integer. -/
theorem arrival_numeral {negative : Bool} {whole fraction : List Char}
    (hw : Json.IsWhole whole) (hf : ∀ c ∈ fraction, c.isDigit)
    (h : numeral negative whole fraction ≠ ['-', '0'])
    (real : ¬ (fraction = [] ∧ FitsSigned (signedValue negative whole)) →
      SettingTree.scalarText
          (.real (.ofDecimal negative (ofDigits (whole ++ fraction)) (-fraction.length))) =
        String.ofList (numeral negative whole fraction)) :
    arrival (String.ofList (numeral negative whole fraction)) =
      String.ofList (numeral negative whole fraction) := by
  rw [arrival, ofText_numeral hw hf]
  by_cases integer : fraction = [] ∧ FitsSigned (signedValue negative whole)
  · obtain ⟨rfl, fits⟩ := integer
    rw [if_pos ⟨rfl, fits⟩, scalarText_signedValue hw h]
  · rw [if_neg integer, real integer]

/-- What is written for a value arrives as it is, except for the text of the negative zero. -/
theorem arrival_scalarText {value : Scalar} (typed : value.IsTyped)
    (h : SettingTree.scalarText value ≠ "-0") :
    arrival (SettingTree.scalarText value) = SettingTree.scalarText value := by
  cases value with
  | bool b => cases b <;> decide +kernel
  | integer n =>
    have value : signedValue (decide (n < 0)) (digitsOf n.natAbs) = n := by
      simp only [signedValue, ofDigits_digitsOf, decide_eq_true_iff]
      split <;> omega
    have fits : FitsSigned (signedValue (decide (n < 0)) (digitsOf n.natAbs)) := value.symm ▸ typed
    rw [scalarText_integer] at h ⊢
    exact arrival_numeral (Json.isWhole_digitsOf _) nofun (fun same => h (by rw [same]))
      fun no => absurd ⟨rfl, fits⟩ no
  | real x =>
    cases x with
    | nan => decide +kernel
    | infinite negative => cases negative <;> decide +kernel
    | finite x =>
      obtain ⟨whole, fraction, written, hw, hf, value⟩ := exists_numeral x
      have text : SettingTree.scalarText (.real (.finite x)) =
          String.ofList (numeral x.negative whole fraction) := congrArg String.ofList written
      have read : Real64.ofDecimal x.negative (ofDigits (whole ++ fraction)) (-fraction.length) =
          .finite x := by
        rw [Real64.ofDecimal, Binary64.ofDecimal_of_value_eq value]
      rw [text] at h ⊢
      exact arrival_numeral hw hf (fun same => h (by rw [same])) fun _ => by rw [read, text]
  | text s => cases typed

theorem fits_of_integer? {cs : List Char} {n : Int} (h : integer? cs = some n) :
    FitsSigned n := by
  unfold integer? at h
  obtain ⟨-, h⟩ := Option.ite_none_left_eq_some.1 h
  obtain ⟨fits, value⟩ := Option.ite_none_right_eq_some.1 h
  exact Option.some.inj value ▸ fits

/-- A text is read as a text only as itself. -/
theorem isTyped_of_ofText_ne {t : String} (h : ofText t ≠ .text t) : (ofText t).IsTyped := by
  simp only [ofText] at h ⊢
  by_cases yes : Text.lowerCase t = "true"
  · rw [if_pos yes]
    trivial
  by_cases no : Text.lowerCase t = "false"
  · rw [if_neg yes, if_pos no]
    trivial
  rw [if_neg yes, if_neg no] at h ⊢
  cases integer : integer? t.toList with
  | some n => exact fits_of_integer? integer
  | none =>
    cases real : real? t.toList with
    | some x => trivial
    | none => exact absurd (by rw [integer, real]) h

/-- A text arrives as it was exactly if it spells no truth value or number, or is what is written
for one. -/
theorem arrival_eq_self_iff {t : String} :
    arrival t = t ↔
      ofText t = .text t ∨
        t ≠ "-0" ∧ ∃ value : Scalar, value.IsTyped ∧ SettingTree.scalarText value = t := by
  constructor
  · intro same
    by_cases plain : ofText t = .text t
    · exact .inl plain
    · refine .inr ⟨?_, ofText t, isTyped_of_ofText_ne plain, same⟩
      rintro rfl
      exact absurd same (by decide +kernel)
  · rintro (plain | ⟨h, value, typed, rfl⟩)
    · rw [arrival, plain]
      rfl
    · exact arrival_scalarText typed h

end Scalar

end StrictSchema
