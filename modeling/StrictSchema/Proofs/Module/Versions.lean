import Mathlib.Data.List.TakeWhile
import StrictSchema.Module.Version
import StrictSchema.Proofs.Json.NumberText
import StrictSchema.Proofs.Results
import StrictSchema.Proofs.Text.Split

/-!
# Versions and their texts

A version is read from the left, and each part of it up to the first character that cannot belong to
it: a number takes all digits (`Version.number_eq_ok_iff`), a pre-release or build metadata all
segments (`Version.segments_eq_ok_iff`). What is read is thus determined by the text, and a version
with parts that can be written (`Version.IsWellFormed`) is read from its own text and from no other
(`Version.parse_eq_ok_iff`).
-/

namespace StrictSchema

namespace Version

open Decimal Json

/-! ## Numbers -/

section Numbers

variable {part : VersionPart} {value n : Nat} {digits cs rest : List Char}

theorem numberRest_cons (part : VersionPart) (value : Nat) (c : Char) (cs : List Char) :
    numberRest part value (c :: cs) =
      if c.isDigit then
        if value = 0 then .error (.leadingZero part)
        else if greatestWord < 10 * value + digitValue c then .error (.tooLarge part)
        else numberRest part (10 * value + digitValue c) cs
      else .ok (value, c :: cs) := rfl

/-- What is read after `value` belongs to the digits of the number. -/
theorem numberRest_sound (fits : value ≤ greatestWord)
    (h : numberRest part value cs = .ok (n, rest)) :
    n ≤ greatestWord ∧ EndsDigits rest ∧ digitsOf value ++ cs = digitsOf n ++ rest := by
  induction cs generalizing value with
  | nil =>
    obtain ⟨rfl, rfl⟩ := Prod.mk.inj (Except.ok.inj h)
    exact ⟨fits, trivial, rfl⟩
  | cons c cs ih =>
    rw [numberRest_cons] at h
    split_ifs at h with digit zero large
    · obtain ⟨small, ends, written⟩ := ih (not_lt.1 large) h
      refine ⟨small, ends, ?_⟩
      rw [← written, digitsOf_snoc zero digit, List.append_assoc, List.singleton_append]
    · obtain ⟨rfl, rfl⟩ := Prod.mk.inj (Except.ok.inj h)
      exact ⟨fits, digit, rfl⟩

theorem le_ofDigitChars (digits : List Char) (value : Nat) :
    value ≤ Nat.ofDigitChars 10 digits value := by
  induction digits generalizing value with
  | nil => exact le_rfl
  | cons c cs ih =>
    rw [ofDigitChars_cons]
    exact le_trans (by omega) (ih _)

theorem numberRest_digits (part : VersionPart) (nonzero : digits = [] ∨ value ≠ 0)
    (hd : ∀ c ∈ digits, c.isDigit) (fits : Nat.ofDigitChars 10 digits value ≤ greatestWord)
    (ends : EndsDigits rest) :
    numberRest part value (digits ++ rest) = .ok (Nat.ofDigitChars 10 digits value, rest) := by
  induction digits generalizing value with
  | nil =>
    cases rest with
    | nil => rfl
    | cons c rest => rw [List.nil_append, numberRest, if_neg ends, Nat.ofDigitChars_nil]
  | cons c cs ih =>
    obtain ⟨hc, hcs⟩ := List.forall_mem_cons.1 hd
    have nonzero : value ≠ 0 := nonzero.resolve_left (List.cons_ne_nil _ _)
    rw [ofDigitChars_cons] at fits ⊢
    have small := (le_ofDigitChars cs _).trans fits
    rw [List.cons_append, numberRest_cons, if_pos hc, if_neg nonzero, if_neg (not_lt.2 small)]
    exact ih (.inr (by omega)) hcs fits

/-- A number is read if 64 bits hold it and no zero is in front of it. -/
theorem number_eq_ok_iff : number part cs = .ok (n, rest) ↔
    n ≤ greatestWord ∧ EndsDigits rest ∧ cs = digitsOf n ++ rest := by
  constructor
  · intro h
    cases cs with
    | nil => cases h
    | cons c cs =>
      rw [number] at h
      split_ifs at h with digit
      have small : digitValue c ≤ greatestWord :=
        (digitValue_lt digit).le.trans (by decide)
      obtain ⟨fits, ends, written⟩ := numberRest_sound small h
      rw [digitsOf_digitValue digit] at written
      exact ⟨fits, ends, written⟩
  · rintro ⟨fits, ends, rfl⟩
    obtain ⟨c, cs, written⟩ := List.exists_cons_of_ne_nil (digitsOf_ne_nil n)
    have digits : ∀ d ∈ c :: cs, d.isDigit := fun d hd => isDigit_of_mem_digitsOf (written ▸ hd)
    obtain ⟨hc, hcs⟩ := List.forall_mem_cons.1 digits
    have value : Nat.ofDigitChars 10 cs (digitValue c) = n := by
      rw [← ofDigits_cons, ← written, ofDigits_digitsOf]
    have nonzero : cs = [] ∨ digitValue c ≠ 0 := by
      by_cases zero : n = 0
      · subst zero
        exact .inl (List.cons.inj written).2.symm
      · right
        have first := head?_digitsOf_ne zero
        rw [written, List.head?_cons] at first
        exact digitValue_ne_zero hc fun same => first (congrArg some same)
    rw [written, List.cons_append, number, if_pos hc]
    have read := numberRest_digits part nonzero hcs (value.symm ▸ fits) ends
    rwa [value] at read

theorem dot_eq_ok_iff : dot part cs = .ok rest ↔ cs = '.' :: rest := by
  cases cs with
  | nil => simp [dot]
  | cons c cs =>
    rw [dot]
    split_ifs with same
    · simp [same]
    · simp [same]

end Numbers

/-! ## Segments -/

/-- A number of several digits with a zero in front. -/
def IsPadded (cs : List Char) : Prop :=
  (∀ c ∈ cs, c.isDigit) ∧ 1 < cs.length ∧ cs.head? = some '0'

/-- A segment of a part of a version. In a pre-release it is no number with a zero in front. -/
structure IsSegment (part : VersionPart) (segment : List Char) : Prop where
  nonempty : segment ≠ []
  chars : ∀ c ∈ segment, isSegmentChar c
  canonical : part = .pre → ¬ IsPadded segment

/-- One or more segments with dots between them. -/
def IsSegments (part : VersionPart) (cs : List Char) : Prop :=
  ∀ segment ∈ Text.split '.' cs, IsSegment part segment

/-- Whether a text does not start like a segment or like a further one. -/
def EndsSegments (rest : List Char) : Prop := ∀ c ∈ rest.head?, ¬ isSegmentChar c ∧ c ≠ '.'

section Segments

variable {part before last : VersionPart} {mark : Char} {segment cs read rest : List Char}

theorem IsSegments.ne_nil (h : IsSegments part cs) : cs ≠ [] := by
  rintro rfl
  exact (h [] (List.mem_singleton_self _)).nonempty rfl

theorem IsSegments.chars (h : IsSegments part cs) : ∀ c ∈ cs, isSegmentChar c || c = '.' := by
  have pieces := Text.forall_mem_split_iff.1 fun segment hsegment => (h segment hsegment).chars
  intro c hc
  by_cases same : c = '.'
  · simp [same]
  · simp [pieces c hc same]

theorem isPadded_iff : IsPadded cs ↔
    cs.all Char.isDigit ∧ 1 < cs.length ∧ cs.head? = some '0' := by
  rw [List.all_eq_true]
  rfl

theorem checkSegment_eq_ok_iff : checkSegment part segment = .ok () ↔
    segment ≠ [] ∧ (part = .pre → ¬ IsPadded segment) := by
  rw [checkSegment]
  split_ifs with empty zero
  · exact iff_of_false nofun fun h => h.1 (List.isEmpty_iff.1 empty)
  · exact iff_of_false nofun fun h => h.2 zero.1 (isPadded_iff.2 zero.2)
  · exact iff_of_true rfl
      ⟨mt List.isEmpty_iff.2 empty, fun pre padded => zero ⟨pre, isPadded_iff.1 padded⟩⟩

/-- Segments are read up to the first character that belongs to none. -/
theorem segments_eq_ok_iff : segments part cs = .ok (read, rest) ↔
    IsSegments part read ∧ EndsSegments rest ∧ cs = read ++ rest := by
  have isSegments (h : ∀ c ∈ read, isSegmentChar c || c = '.') :
      (Text.split '.' read).forM (checkSegment part) = .ok () ↔ IsSegments part read := by
    have chars := Text.forall_mem_split_iff.2 fun c hc dot =>
      (Bool.or_eq_true_iff.1 (h c hc)).resolve_right (by simpa using dot)
    rw [forM_eq_ok_iff]
    refine forall₂_congr fun segment hsegment => checkSegment_eq_ok_iff.trans ?_
    exact ⟨fun h => ⟨h.1, chars segment hsegment, h.2⟩, fun h => ⟨h.nonempty, h.canonical⟩⟩
  constructor
  · intro h
    obtain ⟨_, checked, result⟩ := bind_eq_ok h
    obtain ⟨rfl, rfl⟩ := Prod.mk.inj (Except.ok.inj result)
    have hread : ∀ c ∈ cs.takeWhile (fun c => isSegmentChar c || c = '.'),
        isSegmentChar c || c = '.' := fun _ => List.mem_takeWhile_imp
    refine ⟨(isSegments hread).1 checked, ?_, List.takeWhile_append_dropWhile.symm⟩
    intro c hc
    have other := List.head?_dropWhile_not (fun c => isSegmentChar c || c = '.') cs
    rw [Option.mem_def.1 hc] at other
    simpa using other
  · rintro ⟨hread, ends, rfl⟩
    have before : (read ++ rest).takeWhile (fun c => isSegmentChar c || c = '.') = read := by
      rw [List.takeWhile_append_of_pos hread.chars]
      cases rest with
      | nil => exact List.append_nil read
      | cons c rest => simp [ends c rfl]
    have after : (read ++ rest).dropWhile (fun c => isSegmentChar c || c = '.') = rest := by
      rw [List.dropWhile_append_of_pos hread.chars]
      cases rest with
      | nil => rfl
      | cons c rest => simp [ends c rfl]
    unfold segments
    dsimp only
    rw [before, after, (isSegments hread.chars).2 hread]
    rfl

/-- A part that starts with a mark is read with it; otherwise nothing is read. -/
theorem eq_of_optional (h : optional mark part before cs = .ok (read, last, rest)) :
    cs = marked mark read ++ rest ∧ (read = [] ∨ IsSegments part read) := by
  have none : .ok ([], before, cs) = (.ok (read, last, rest) : Except VersionError _) →
      cs = marked mark read ++ rest ∧ (read = [] ∨ IsSegments part read) := by
    intro h
    obtain ⟨rfl, tail⟩ := Prod.mk.inj (Except.ok.inj h)
    exact ⟨(Prod.mk.inj tail).2, .inl rfl⟩
  cases cs with
  | nil => exact none h
  | cons c cs =>
    rw [optional] at h
    split_ifs at h with same
    · obtain ⟨⟨text, after⟩, hsegments, result⟩ := bind_eq_ok h
      obtain ⟨rfl, tail⟩ := Prod.mk.inj (Except.ok.inj result)
      obtain ⟨rfl, rfl⟩ := Prod.mk.inj tail
      obtain ⟨hread, -, rfl⟩ := segments_eq_ok_iff.1 hsegments
      refine ⟨?_, .inr hread⟩
      rw [marked, if_neg (mt List.isEmpty_iff.1 hread.ne_nil), same, List.cons_append]
    · exact none h

theorem optional_marked (mark : Char) (before : VersionPart)
    (hread : read = [] ∨ IsSegments part read) (ends : EndsSegments rest)
    (other : rest.head? ≠ some mark) :
    ∃ last, optional mark part before (marked mark read ++ rest) = .ok (read, last, rest) := by
  rcases hread with rfl | hread
  · cases rest with
    | nil => exact ⟨before, rfl⟩
    | cons c rest => exact ⟨before, if_neg fun same => other (congrArg some same)⟩
  · refine ⟨part, ?_⟩
    rw [marked, if_neg (mt List.isEmpty_iff.1 hread.ne_nil), List.cons_append, optional,
      if_pos rfl, segments_eq_ok_iff.2 ⟨hread, ends, rfl⟩]
    rfl

end Segments

/-! ## Versions -/

/-- A version that has a text: its numbers have 64 bits, and its parts, if there are any, are
segments. -/
structure IsWellFormed (v : Version) : Prop where
  major : v.major ≤ greatestWord
  minor : v.minor ≤ greatestWord
  patch : v.patch ≤ greatestWord
  pre : v.pre = [] ∨ IsSegments .pre v.pre
  build : v.build = [] ∨ IsSegments .build v.build

/-- A version is read part by part, to the end of the text. -/
theorem parts_of_parseChars {cs : List Char} {v : Version} (h : parseChars cs = .ok v) :
    ∃ afterMajor fromMinor afterMinor fromPatch afterPatch lastPre afterPre last,
      number .major cs = .ok (v.major, afterMajor) ∧ dot .major afterMajor = .ok fromMinor ∧
      number .minor fromMinor = .ok (v.minor, afterMinor) ∧ dot .minor afterMinor = .ok fromPatch ∧
      number .patch fromPatch = .ok (v.patch, afterPatch) ∧
      optional '-' .pre .patch afterPatch = .ok (v.pre, lastPre, afterPre) ∧
      optional '+' .build lastPre afterPre = .ok (v.build, last, []) := by
  unfold parseChars at h
  split_ifs at h
  · cases h
  obtain ⟨⟨major, afterMajor⟩, hmajor, h⟩ := bind_eq_ok h
  obtain ⟨fromMinor, hmajorDot, h⟩ := bind_eq_ok h
  obtain ⟨⟨minor, afterMinor⟩, hminor, h⟩ := bind_eq_ok h
  obtain ⟨fromPatch, hminorDot, h⟩ := bind_eq_ok h
  obtain ⟨⟨patch, afterPatch⟩, hpatch, h⟩ := bind_eq_ok h
  obtain ⟨⟨pre, lastPre, afterPre⟩, hpre, h⟩ := bind_eq_ok h
  obtain ⟨⟨build, last, afterBuild⟩, hbuild, h⟩ := bind_eq_ok h
  cases afterBuild with
  | cons c rest => cases h
  | nil =>
    obtain rfl := Except.ok.inj h
    exact ⟨_, _, _, _, _, _, _, _, hmajor, hmajorDot, hminor, hminorDot, hpatch, hpre, hbuild⟩

theorem isWellFormed_of_parseChars {cs : List Char} {v : Version} (h : parseChars cs = .ok v) :
    v.IsWellFormed ∧ v.chars = cs := by
  obtain ⟨_, _, _, _, _, _, _, _, hmajor, hmajorDot, hminor, hminorDot, hpatch, hpre, hbuild⟩ :=
    parts_of_parseChars h
  obtain ⟨major, -, hcs⟩ := number_eq_ok_iff.1 hmajor
  obtain ⟨minor, -, hfromMinor⟩ := number_eq_ok_iff.1 hminor
  obtain ⟨patch, -, hfromPatch⟩ := number_eq_ok_iff.1 hpatch
  obtain ⟨hafterPatch, pre⟩ := eq_of_optional hpre
  obtain ⟨hafterPre, build⟩ := eq_of_optional hbuild
  refine ⟨⟨major, minor, patch, pre, build⟩, ?_⟩
  rw [hcs, dot_eq_ok_iff.1 hmajorDot, hfromMinor, dot_eq_ok_iff.1 hminorDot, hfromPatch,
    hafterPatch, hafterPre]
  simp only [chars, List.append_assoc, List.cons_append, List.append_nil]

theorem endsSegments_marked (text : List Char) : EndsSegments (marked '+' text) := by
  unfold marked
  split_ifs
  · exact nofun
  · rintro _ ⟨⟩
    decide

theorem endsDigits_marked {mark : Char} (hmark : ¬ mark.isDigit) (text : List Char)
    {rest : List Char} (hrest : EndsDigits rest) : EndsDigits (marked mark text ++ rest) := by
  unfold marked
  split_ifs
  · exact hrest
  · exact hmark

theorem head?_marked_ne {mark other : Char} (h : mark ≠ other) (text : List Char) :
    (marked mark text).head? ≠ some other := by
  unfold marked
  split_ifs
  · exact nofun
  · exact fun same => h (Option.some.inj same)

theorem endsDigits_parts (v : Version) : EndsDigits (marked '-' v.pre ++ marked '+' v.build) := by
  have none : EndsDigits [] := trivial
  have build := endsDigits_marked (by decide : ¬ '+'.isDigit) v.build none
  rw [List.append_nil] at build
  exact endsDigits_marked (by decide) v.pre build

theorem chars_eq (v : Version) : v.chars = digitsOf v.major ++ '.' :: (digitsOf v.minor ++
    '.' :: (digitsOf v.patch ++ (marked '-' v.pre ++ marked '+' v.build))) := by
  simp only [chars, List.append_assoc, List.cons_append]

theorem parseChars_chars {v : Version} (h : v.IsWellFormed) : parseChars v.chars = .ok v := by
  have beforeDot {part : VersionPart} {n : Nat} (fits : n ≤ greatestWord) (rest : List Char) :
      number part (digitsOf n ++ '.' :: rest) = .ok (n, '.' :: rest) :=
    number_eq_ok_iff.2 ⟨fits, (by decide : ¬ '.'.isDigit), rfl⟩
  have atDot (part : VersionPart) (rest : List Char) : dot part ('.' :: rest) = .ok rest := rfl
  have hpatch : number .patch (digitsOf v.patch ++ (marked '-' v.pre ++ marked '+' v.build)) =
      .ok (v.patch, marked '-' v.pre ++ marked '+' v.build) :=
    number_eq_ok_iff.2 ⟨h.patch, endsDigits_parts v, rfl⟩
  obtain ⟨lastPre, hpre⟩ := optional_marked '-' .patch h.pre (endsSegments_marked v.build)
    (head?_marked_ne (by decide) v.build)
  have none : EndsSegments [] := nofun
  obtain ⟨last, hbuild⟩ := optional_marked '+' lastPre h.build none nofun
  rw [List.append_nil] at hbuild
  have nonempty : ¬ v.chars.isEmpty := by simp [chars_eq]
  rw [parseChars, if_neg nonempty, chars_eq]
  simp only [beforeDot h.major, beforeDot h.minor, atDot, hpatch, hpre, hbuild, bind, Except.bind]
  rfl

/-- The texts that are read as versions are those of the versions with well-formed parts, and each
is read as the version that it is the text of. -/
theorem parse_eq_ok_iff {s : String} {v : Version} :
    parse s = .ok v ↔ v.IsWellFormed ∧ v.text = s := by
  rw [parse, text, ← String.toList_inj, String.toList_ofList]
  refine ⟨isWellFormed_of_parseChars, ?_⟩
  rintro ⟨h, written⟩
  rw [← written, parseChars_chars h]

end Version

end StrictSchema
