import Mathlib.Tactic.SplitIfs
import StrictSchema.Json.Printer
import StrictSchema.Json.Reader

/-!
# The text of a string reads back

The reader undoes the printer character by character (`stringRest_escape`): each has one way of
being written, and what is read from it does not depend on what follows. The closing quote is the
first that is not escaped, so `stringRest_stringChars` ends just there.
-/

namespace StrictSchema.Json

variable {c : Char}

theorem hexDigit?_digitChar : ∀ n < 16, hexDigit? (Nat.digitChar n) = some n := by decide

/-- The four digits that a control character is written with spell its number. -/
theorem codeUnit?_control (hc : c.toNat < 256) :
    codeUnit? '0' '0' (Nat.digitChar (c.toNat / 16)) (Nat.digitChar (c.toNat % 16)) =
      some c.toNat := by
  have zero : hexDigit? '0' = some 0 := rfl
  have high := hexDigit?_digitChar (c.toNat / 16) (by omega)
  have low := hexDigit?_digitChar (c.toNat % 16) (by omega)
  simp only [codeUnit?, zero, high, low, Option.bind_eq_bind, Option.bind_some, Option.pure_def,
    Option.some.injEq]
  omega

theorem stringRest_control (more : List Char) (hc : c < ' ') :
    stringRest ('\\' :: 'u' :: '0' :: '0' :: Nat.digitChar (c.toNat / 16) ::
      Nat.digitChar (c.toNat % 16) :: more) = prepend c (stringRest more) := by
  have small : c.toNat < 32 := hc
  have trailing : isTrailingSurrogate c.toNat = false := by
    unfold isTrailingSurrogate
    simp only [Bool.and_eq_false_iff, decide_eq_false_iff_not]
    omega
  have leading : isLeadingSurrogate c.toNat = false := by
    unfold isLeadingSurrogate
    simp only [Bool.and_eq_false_iff, decide_eq_false_iff_not]
    omega
  rw [stringRest]
  simp only [codeUnit?_control (by omega : c.toNat < 256), trailing, leading, Bool.false_eq_true,
    if_false, Char.ofNat_toNat]

theorem stringRest_plain (more : List Char) (quote : c ≠ '"') (backslash : c ≠ '\\')
    (visible : ¬c < ' ') : stringRest (c :: more) = prepend c (stringRest more) := by
  rw [stringRest]
  · rw [if_neg visible]
  · exact quote
  · exact backslash

/-- Reading a character as it is written gives the character. -/
theorem stringRest_escape (c : Char) (more : List Char) :
    stringRest (escape c ++ more) = prepend c (stringRest more) := by
  unfold escape
  split_ifs with quote backslash backspace feed line carriage tab control
  case pos | pos | pos | pos | pos | pos | pos =>
    subst c
    rfl
  · exact stringRest_control more control
  · exact stringRest_plain more quote backslash control

theorem stringRest_escapes (cs rest : List Char) :
    stringRest (cs.flatMap escape ++ '"' :: rest) = .ok (cs, rest) := by
  induction cs with
  | nil => rfl
  | cons c cs ih =>
    rw [List.flatMap_cons, List.append_assoc, stringRest_escape, ih]
    rfl

/-- After its opening quote the text of a string is read up to its end. -/
theorem stringChars_eq (s : String) (rest : List Char) :
    ∃ body, stringChars s ++ rest = '"' :: body ∧ stringRest body = .ok (s.toList, rest) := by
  refine ⟨s.toList.flatMap escape ++ '"' :: rest, ?_, stringRest_escapes s.toList rest⟩
  unfold stringChars
  rw [List.cons_append, List.cons_append, List.append_assoc]
  rfl

end StrictSchema.Json
