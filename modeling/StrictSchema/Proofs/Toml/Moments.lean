import Mathlib.Data.List.TakeWhile
import StrictSchema.Proofs.Json.NumberText
import StrictSchema.Toml.Moment

/-!
# Dates and times read back

What is written for a date, a time or both is read as it (`Toml.moment?_chars`): numbers of a fixed
width stand between marks that are no digits, and a fraction of a second comes back with the zeros
that were left off at its end.
-/

namespace StrictSchema.Toml

open Decimal

/-! ## Numbers of a fixed width -/

section Width

variable {width n : Nat}

theorem length_zeroPadded (fits : n < 10 ^ width) (positive : 0 < width) :
    (zeroPadded width n).length = width := by
  have short : (digitsOf n).length ≤ width :=
    (Nat.length_toDigits_le_iff (by decide) positive).2 fits
  rw [zeroPadded, List.length_append, List.length_replicate]
  omega

theorem isDigit_of_mem_zeroPadded {c : Char} (mem : c ∈ zeroPadded width n) : c.isDigit :=
  (List.mem_append.1 mem).elim Json.isDigit_of_mem_zeros isDigit_of_mem_digitsOf

theorem ofDigits_zeroPadded (width n : Nat) : ofDigits (zeroPadded width n) = n := by
  rw [zeroPadded, ofDigits_append, ofDigits_zeros, ofDigits_digitsOf, Nat.mul_zero, Nat.zero_add]

theorem fixedDigits?_zeroPadded (fits : n < 10 ^ width) (positive : 0 < width)
    (rest : List Char) : fixedDigits? width (zeroPadded width n ++ rest) = some (n, rest) := by
  have length := length_zeroPadded fits positive
  have digits : (zeroPadded width n).all Char.isDigit :=
    List.all_eq_true.2 fun c mem => isDigit_of_mem_zeroPadded mem
  simp only [fixedDigits?, List.take_left' length, List.drop_left' length, length, digits,
    ofDigits_zeroPadded, decide_true, Bool.and_self, if_true]

end Width

/-! ## Dates -/

theorem date?_chars (d : Date) (rest : List Char) : date? (d.chars ++ rest) = some (d, rest) := by
  obtain ⟨year, month, day, year_lt, month_mem, day_mem⟩ := d
  have year_lt' : year < 10 ^ 4 := by omega
  have month_lt : month < 10 ^ 2 := by omega
  have day_lt : day < 10 ^ 2 := by
    have : daysOfMonth year month ≤ 31 := by
      unfold daysOfMonth
      split_ifs <;> omega
    omega
  simp only [date?, Date.chars, List.append_assoc, List.cons_append,
    fixedDigits?_zeroPadded year_lt' (by decide), fixedDigits?_zeroPadded month_lt (by decide),
    fixedDigits?_zeroPadded day_lt (by decide), after?, if_true, Option.bind_some, bind]
  exact dif_pos ⟨year_lt, month_mem, day_mem⟩

/-! ## Times -/

/-- What may follow a fraction: nothing that goes on with it. -/
structure EndsFraction (rest : List Char) : Prop where
  digits : Json.EndsDigits rest
  point : rest.head? ≠ some '.'

theorem fraction_of_endsFraction {rest : List Char} (ends : EndsFraction rest) :
    fraction rest = (0, rest) := by
  unfold fraction
  split
  · exact absurd rfl ends.point
  · rfl

/-- Only zeros at the end are left off. -/
theorem exists_zeros (digits : List Char) :
    ∃ k, digits = (digits.reverse.dropWhile (· = '0')).reverse ++ List.replicate k '0' := by
  have zeros : ∀ c ∈ digits.reverse.takeWhile (· = '0'), c = '0' := by
    intro c mem
    simpa using List.mem_takeWhile_imp mem
  obtain ⟨k, left⟩ : ∃ k, digits.reverse.takeWhile (· = '0') = List.replicate k '0' :=
    ⟨_, List.eq_replicate_length.2 zeros⟩
  refine ⟨k, List.reverse_injective ?_⟩
  rw [List.reverse_append, List.reverse_reverse, List.reverse_replicate, ← left,
    List.takeWhile_append_dropWhile]

/-- A fraction comes back with the zeros that were left off. -/
theorem fraction_fractionChars {n : Nat} (fits : n < 1000000000) {rest : List Char}
    (ends : EndsFraction rest) : fraction (fractionChars n ++ rest) = (n, rest) := by
  unfold fractionChars
  split_ifs with zero
  · rw [zero]
    exact fraction_of_endsFraction ends
  · obtain ⟨k, split⟩ := exists_zeros (zeroPadded 9 n)
    generalize ((zeroPadded 9 n).reverse.dropWhile (· = '0')).reverse = shown at split ⊢
    have digits : ∀ c ∈ shown, c.isDigit := fun c mem =>
      isDigit_of_mem_zeroPadded (split ▸ List.mem_append_left _ mem)
    have length : shown.length + k = 9 := by
      have whole := length_zeroPadded fits (by decide : 0 < 9)
      rwa [split, List.length_append, List.length_replicate] at whole
    have value : ofDigits (shown ++ List.replicate k '0') = n := split ▸ ofDigits_zeroPadded 9 n
    have filled : shown.isEmpty = false := by
      cases shown with
      | nil =>
        rw [List.nil_append, ofDigits_zeros] at value
        exact absurd value.symm zero
      | cons => rfl
    have places : 9 - shown.length = k := by omega
    simp only [fraction, List.cons_append, Json.takeWhile_digits digits ends.digits,
      Json.dropWhile_digits digits ends.digits, filled, places,
      List.take_of_length_le (by omega : shown.length ≤ 9), value]
    rfl

theorem time?_chars (t : Time) {rest : List Char} (ends : EndsFraction rest) :
    time? (t.chars ++ rest) = some (t, rest) := by
  obtain ⟨hour, minute, second, nanosecond, hour_lt, minute_lt, second_le, nanosecond_lt⟩ := t
  have hour_lt' : hour < 10 ^ 2 := by omega
  have minute_lt' : minute < 10 ^ 2 := by omega
  have second_lt : second < 10 ^ 2 := by omega
  simp only [time?, Time.chars, List.append_assoc, List.cons_append,
    fixedDigits?_zeroPadded hour_lt' (by decide), fixedDigits?_zeroPadded minute_lt' (by decide),
    fixedDigits?_zeroPadded second_lt (by decide), after?, if_true, Option.bind_some, bind,
    fraction_fractionChars nanosecond_lt ends]
  exact dif_pos ⟨hour_lt, minute_lt, second_le, nanosecond_lt⟩

/-! ## Dates with times -/

/-- A sign with hours and minutes is read as so many minutes in its direction. -/
theorem offset?_clock {c : Char} (sign : c = '+' ∨ c = '-') {hours minutes : Nat}
    (hours_lt : hours < 24) (minutes_lt : minutes < 60) {distance : Int}
    (within : distance.natAbs < 1440)
    (value : distance = if c = '-' then -(60 * hours + minutes : Int) else 60 * hours + minutes) :
    offset? (c :: (zeroPadded 2 hours ++ ':' :: zeroPadded 2 minutes)) =
      some (.away distance within, []) := by
  subst value
  have hours_lt' : hours < 10 ^ 2 := by omega
  have minutes_lt' : minutes < 10 ^ 2 := by omega
  have last := fixedDigits?_zeroPadded minutes_lt' (by decide) []
  rw [List.append_nil] at last
  have letter : (c = 'Z' || c = 'z') = false := by rcases sign with rfl | rfl <;> rfl
  have sign : (c = '+' || c = '-') = true := by rcases sign with rfl | rfl <;> rfl
  simp only [offset?, letter, sign, fixedDigits?_zeroPadded hours_lt' (by decide), last, after?,
    if_true, Bool.false_eq_true, if_false, Option.bind_some, bind]
  exact dif_pos ⟨hours_lt, minutes_lt⟩

theorem offset?_chars (o : Offset) : offset? o.chars = some (o, []) := by
  cases o with
  | universal => rfl
  | away minutes within =>
    have hours_lt : minutes.natAbs / 60 < 24 := by omega
    have minutes_lt : minutes.natAbs % 60 < 60 := by omega
    rw [Offset.chars]
    by_cases negative : minutes < 0
    · rw [if_pos negative]
      exact offset?_clock (.inr rfl) hours_lt minutes_lt within (by rw [if_pos rfl]; omega)
    · rw [if_neg negative]
      exact offset?_clock (.inl rfl) hours_lt minutes_lt within
        (by rw [if_neg (by decide)]; omega)

theorem endsFraction_chars (o : Offset) : EndsFraction o.chars := by
  have mark {c : Char} (rest : List Char) (h : c.isDigit = false ∧ c ≠ '.') :
      EndsFraction (c :: rest) :=
    ⟨by simp [Json.EndsDigits, h.1], fun same => h.2 (Option.some.inj same)⟩
  cases o with
  | universal => exact mark [] (by decide)
  | away minutes within =>
    rw [Offset.chars]
    split
    · exact mark _ (by decide)
    · exact mark _ (by decide)

/-- A time of day is no date, for a mark stands where a year would go on. -/
theorem date?_time (t : Time) : date? t.chars = none := by
  have hour_lt : t.hour < 10 ^ 2 := by have := t.hour_lt; omega
  obtain ⟨a, b, hour⟩ := List.length_eq_two.1 (length_zeroPadded hour_lt (by decide))
  have year : fixedDigits? 4 t.chars = none := by
    simp [fixedDigits?, Time.chars, hour]
  rw [date?, year]
  rfl

/-- What is written for a date, a time or both is read as it. -/
theorem moment?_chars (m : Moment) : moment? m.chars = some (m, []) := by
  have nothing : EndsFraction [] := ⟨trivial, nofun⟩
  cases m with
  | date d =>
    have read := date?_chars d []
    rw [List.append_nil] at read
    simp only [moment?, Moment.chars, read]
    rfl
  | time t =>
    have read := time?_chars t nothing
    rw [List.append_nil] at read
    simp only [moment?, Moment.chars, date?_time, read]
    rfl
  | dateTime d t offset =>
    have start (rest : List Char) : timeAfterDate? ('T' :: rest) = time? rest := rfl
    simp only [moment?, Moment.chars, List.append_assoc, List.cons_append, date?_chars, start]
    cases offset with
    | none =>
      simp only [time?_chars t nothing]
      rfl
    | some o => simp only [time?_chars t (endsFraction_chars o), offset?_chars]

end StrictSchema.Toml
