import StrictSchema.Proofs.Module.References
import StrictSchema.Proofs.Module.Versions

/-!
# References and semantic versions

The version of a reference may have numbers of any length with zeros in front, and its segments
after the version may be anything, while a semantic version is stricter with numbers
(`ModuleRef.IsWellFormed.exists_semanticVersion_iff`). All these segments together are a single one
there, since hyphens do not separate them. Where a reference has a semantic version, it says the
same in the same characters, so that no two references of a module have the same
(`ModuleRef.semanticVersion_exact`).
-/

namespace StrictSchema

namespace ModuleGrammar

open Decimal
open Json (EndsDigits digits_append_inj)
open Version (IsPadded IsSegments isSegmentChar marked)

variable {digits major minor patch suffix cs : List Char} {v : Version}

/-- A number of 64 bits without a zero in front. -/
structure IsWordNumber (digits : List Char) : Prop where
  fits : ofDigits digits ≤ 2 ^ 64 - 1
  canonical : digits.head? = some '0' → digits = ['0']

theorem isWordNumber_iff (h : digits ∈ number) :
    IsWordNumber digits ↔ ∃ n ≤ greatestWord, digitsOf n = digits := by
  have greatest : greatestWord = 2 ^ 64 - 1 := rfl
  constructor
  · rintro ⟨fits, canonical⟩
    have written := digitsOf_ofDigits (fun c hc => isDigit_iff.2 (h.2 c hc)) h.1 canonical
    exact ⟨ofDigits digits, greatest ▸ fits, written⟩
  · rintro ⟨n, fits, rfl⟩
    refine ⟨?_, fun zero => ?_⟩
    · rwa [ofDigits_digitsOf, ← greatest]
    · by_cases hn : n = 0
      · rw [hn]
        rfl
      · exact absurd zero (head?_digitsOf_ne hn)

/-! ## Pre-releases -/

theorem isSegmentChar_of_mem_name (h : cs ∈ name) : ∀ c ∈ cs, isSegmentChar c := by
  have alphanum {c : Char} (h : c.isAlpha ∨ c.isDigit) : isSegmentChar c :=
    Bool.or_eq_true_iff.2 (.inl (Bool.or_eq_true_iff.2 h))
  intro c hc
  rcases (isHyphenated_iff.2 h).chars c hc with (lower | digit) | rfl
  · exact alphanum (.inl (Bool.or_eq_true_iff.2 (.inr (isLower_iff.2 lower))))
  · exact alphanum (.inr (isDigit_iff.2 digit))
  · decide

/-- The segments of a reference are one segment of a version. -/
theorem isSegments_iff_of_mem_name (h : cs ∈ name) : IsSegments .pre cs ↔ ¬ IsPadded cs := by
  have dot : '.' ∉ cs := notMem_name (by decide) (by decide) cs h
  rw [IsSegments, Text.split_of_notMem dot, List.forall_mem_singleton]
  constructor
  · exact fun segment => segment.canonical rfl
  · exact fun padded =>
      ⟨(isHyphenated_iff.2 h).nonempty, isSegmentChar_of_mem_name h, fun _ => padded⟩

theorem isPre_iff (h : suffix ∈ preversion) :
    suffix.drop 1 = [] ∨ IsSegments .pre (suffix.drop 1) ↔ ¬ IsPadded (suffix.drop 1) := by
  rcases mem_preversion_iff.1 h with rfl | ⟨rest, hrest, rfl⟩
  · exact iff_of_true (.inl rfl) fun padded => nomatch padded.2.2
  · rw [List.drop_one, List.tail_cons, isSegments_iff_of_mem_name hrest]
    exact or_iff_right (isHyphenated_iff.2 hrest).nonempty

theorem marked_drop (h : suffix ∈ preversion) : marked '-' (suffix.drop 1) = suffix := by
  rcases mem_preversion_iff.1 h with rfl | ⟨rest, hrest, rfl⟩
  · rfl
  · exact if_neg (mt List.isEmpty_iff.1 (isHyphenated_iff.2 hrest).nonempty)

/-! ## The characters of a version -/

theorem endsDigits_of_mem_preversion (h : suffix ∈ preversion) : EndsDigits suffix := by
  rcases mem_preversion_iff.1 h with rfl | ⟨rest, -, rfl⟩
  · trivial
  · exact (by decide : ¬ '-'.isDigit)

/-- Without build metadata and after its mark, a pre-release is the pre-version of a reference. -/
theorem marked_append_eq_iff {pre build : List Char} (h : suffix ∈ preversion) :
    marked '-' pre ++ marked '+' build = suffix ↔ pre = suffix.drop 1 ∧ build = [] := by
  constructor
  · rintro rfl
    have plus := notMem_preversion (by decide : ¬ IsLowerOrDigit '+') (by decide) h
    have noBuild : build = [] := by
      by_contra nonempty
      refine plus (List.mem_append_right _ ?_)
      rw [marked, if_neg (mt List.isEmpty_iff.1 nonempty)]
      exact List.mem_cons_self
    subst noBuild
    refine ⟨?_, rfl⟩
    by_cases empty : pre = []
    · rw [empty]
      rfl
    · rw [marked, if_neg (mt List.isEmpty_iff.1 empty)]
      exact (List.append_nil pre).symm
  · rintro ⟨rfl, rfl⟩
    rw [marked_drop h]
    exact List.append_nil suffix

/-- The numbers of a version and a pre-version are found again in their text. -/
theorem chars_eq_iff (hmajor : major ∈ number) (hminor : minor ∈ number) (hpatch : patch ∈ number)
    (hsuffix : suffix ∈ preversion) :
    v.chars = major ++ '.' :: (minor ++ '.' :: (patch ++ suffix)) ↔
      digitsOf v.major = major ∧ digitsOf v.minor = minor ∧ digitsOf v.patch = patch ∧
        v.pre = suffix.drop 1 ∧ v.build = [] := by
  rw [v.chars_eq, ← marked_append_eq_iff hsuffix]
  constructor
  · intro same
    have dot (n : Nat) : '.' ∉ digitsOf n := fun mem =>
      (by decide : ¬ '.'.isDigit) (isDigit_of_mem_digitsOf mem)
    obtain ⟨sameMajor, afterMajor⟩ := Text.append_sep_inj (dot _) (dot_notMem_number hmajor) same
    obtain ⟨sameMinor, afterMinor⟩ :=
      Text.append_sep_inj (dot _) (dot_notMem_number hminor) afterMajor
    obtain ⟨samePatch, afterPatch⟩ := digits_append_inj (fun _ => isDigit_of_mem_digitsOf)
      (fun c hc => isDigit_iff.2 (hpatch.2 c hc)) v.endsDigits_parts
      (endsDigits_of_mem_preversion hsuffix) afterMinor
    exact ⟨sameMajor, sameMinor, samePatch, afterPatch⟩
  · rintro ⟨rfl, rfl, rfl, parts⟩
    rw [parts]

end ModuleGrammar

namespace ModuleRef

open ModuleGrammar

variable {m n : ModuleRef} {major minor patch : List Char} {v : Version}

theorem semanticVersion_eq_ok_iff :
    m.semanticVersion = .ok v ↔ v.IsWellFormed ∧ v.text = m.version ++ m.preversion :=
  Version.parse_eq_ok_iff

/-- The semantic version of a reference has the same numbers and segments. -/
theorem IsWellFormed.semanticVersion_eq_ok_iff (h : m.IsWellFormed) (hmajor : major ∈ number)
    (hminor : minor ∈ number) (hpatch : patch ∈ number)
    (hversion : m.version.toList = major ++ '.' :: (minor ++ '.' :: patch)) :
    m.semanticVersion = .ok v ↔ v.IsWellFormed ∧ Decimal.digitsOf v.major = major ∧
      Decimal.digitsOf v.minor = minor ∧ Decimal.digitsOf v.patch = patch ∧
      v.pre = m.preversion.toList.drop 1 ∧ v.build = [] := by
  have joined : (m.version ++ m.preversion).toList =
      major ++ '.' :: (minor ++ '.' :: (patch ++ m.preversion.toList)) := by
    rw [String.toList_append, hversion]
    simp only [List.append_assoc, List.cons_append]
  rw [ModuleRef.semanticVersion_eq_ok_iff, ← String.toList_inj, Version.text, String.toList_ofList,
    joined, chars_eq_iff hmajor hminor hpatch h.preversion]

/-- A reference has a semantic version if its numbers have 64 bits and no zero in front, and what
follows them is no number with a zero in front. -/
theorem IsWellFormed.exists_semanticVersion_iff (h : m.IsWellFormed) (hmajor : major ∈ number)
    (hminor : minor ∈ number) (hpatch : patch ∈ number)
    (hversion : m.version.toList = major ++ '.' :: (minor ++ '.' :: patch)) :
    (∃ v, m.semanticVersion = .ok v) ↔
      (∀ digits ∈ [major, minor, patch], IsWordNumber digits) ∧
        ¬ Version.IsPadded (m.preversion.toList.drop 1) := by
  simp only [h.semanticVersion_eq_ok_iff hmajor hminor hpatch hversion, List.forall_mem_cons,
    isWordNumber_iff hmajor, isWordNumber_iff hminor, isWordNumber_iff hpatch,
    ← isPre_iff h.preversion]
  constructor
  · rintro ⟨v, wellFormed, rfl, rfl, rfl, hpre, -⟩
    exact ⟨⟨⟨_, wellFormed.major, rfl⟩, ⟨_, wellFormed.minor, rfl⟩, ⟨_, wellFormed.patch, rfl⟩,
      List.forall_mem_nil _⟩, hpre ▸ wellFormed.pre⟩
  · rintro ⟨⟨⟨x, hx, rfl⟩, ⟨y, hy, rfl⟩, ⟨z, hz, rfl⟩, -⟩, hpre⟩
    exact ⟨⟨x, y, z, m.preversion.toList.drop 1, []⟩, ⟨hx, hy, hz, hpre, .inl rfl⟩, rfl, rfl, rfl,
      rfl, rfl⟩

/-- A reference has a semantic version exactly if its numbers have 64 bits and no zero in front, and
what follows them is no number with a zero in front. The semantic version has the text of the
reference, and so no other reference to the module has it. -/
theorem semanticVersion_exact {value : String} {m : ModuleRef} (h : parse value = .ok m) :
    (∃ major ∈ number, ∃ minor ∈ number, ∃ patch ∈ number,
      m.version.toList = major ++ '.' :: (minor ++ '.' :: patch) ∧
      ((∃ v, m.semanticVersion = .ok v) ↔
        (∀ digits ∈ [major, minor, patch], IsWordNumber digits) ∧
          ¬ Version.IsPadded (m.preversion.toList.drop 1))) ∧
    (∀ v, m.semanticVersion = .ok v → v.text = m.version ++ m.preversion ∧ v.build = [] ∧
      v.pre = m.preversion.toList.drop 1) ∧
    ∀ other n, parse other = .ok n → n.space = m.space → n.name = m.name →
      ∀ v, n.semanticVersion = .ok v → m.semanticVersion = .ok v → other = value := by
  obtain ⟨wellFormed, rfl⟩ := parse_eq_ok_iff.1 h
  obtain ⟨major, hmajor, minor, hminor, patch, hpatch, hversion⟩ :=
    mem_version_iff.1 wellFormed.version
  refine ⟨⟨major, hmajor, minor, hminor, patch, hpatch, hversion.symm,
    wellFormed.exists_semanticVersion_iff hmajor hminor hpatch hversion.symm⟩, fun v hv => ?_, ?_⟩
  · obtain ⟨-, -, -, -, hpre, hbuild⟩ :=
      (wellFormed.semanticVersion_eq_ok_iff hmajor hminor hpatch hversion.symm).1 hv
    exact ⟨(semanticVersion_eq_ok_iff.1 hv).2, hbuild, hpre⟩
  · intro other n hn sameSpace sameName v hother hv
    obtain ⟨wellFormed', rfl⟩ := parse_eq_ok_iff.1 hn
    have sameVersion : n.version ++ n.preversion = m.version ++ m.preversion :=
      (semanticVersion_eq_ok_iff.1 hother).2.symm.trans (semanticVersion_eq_ok_iff.1 hv).2
    refine String.toList_inj.1 ?_
    rw [wellFormed.toList_text, wellFormed'.toList_text, sameSpace, sameName,
      ← String.toList_append, ← String.toList_append, sameVersion]

/-- The greatest number, and segments that start like a number with a zero in front. -/
def greatestMinor : ModuleRef :=
  { space := "story", name := "place", version := "0.18446744073709551615.10",
    preversion := "-01-a" }

/-- The first segment alone would be a number with a zero in front. -/
theorem semanticVersion_exact_greatestMinor :
    parse "story:place@v0.18446744073709551615.10-01-a" = .ok greatestMinor ∧
    (∃ v, greatestMinor.semanticVersion = .ok v ∧
      v.text = "0.18446744073709551615.10" ++ "-01-a" ∧ v.build = [] ∧
      v.pre = ['0', '1', '-', 'a'] ∧
      ∀ other n, parse other = .ok n → n.space = "story" → n.name = "place" →
        n.semanticVersion = .ok v → other = "story:place@v0.18446744073709551615.10-01-a") ∧
    ¬ ∃ v, ({ greatestMinor with preversion := "-01" } : ModuleRef).semanticVersion = .ok v := by
  have read : parse "story:place@v0.18446744073709551615.10-01-a" = .ok greatestMinor := rfl
  have readPadded : parse "story:place@v0.18446744073709551615.10-01" =
      .ok { greatestMinor with preversion := "-01" } := rfl
  have found : greatestMinor.semanticVersion =
      .ok ⟨0, 18446744073709551615, 10, ['0', '1', '-', 'a'], []⟩ := rfl
  obtain ⟨-, stated, only⟩ := semanticVersion_exact read
  obtain ⟨text, build, pre⟩ := stated _ found
  obtain ⟨⟨_, _, _, _, _, _, -, succeeds_iff⟩, -⟩ := semanticVersion_exact readPadded
  refine ⟨read, ⟨_, found, text, build, pre, fun other n hn hspace hname hv =>
    only other n hn hspace hname _ hv found⟩, fun succeeds => (succeeds_iff.1 succeeds).2 ?_⟩
  have digits : ∀ c ∈ ['0', '1'], c.isDigit := List.all_eq_true.1 rfl
  exact ⟨digits, Nat.one_lt_two, rfl⟩

end ModuleRef

end StrictSchema
