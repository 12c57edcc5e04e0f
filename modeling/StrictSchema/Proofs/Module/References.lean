import StrictSchema.Generation.Preparation
import StrictSchema.Proofs.Module.Grammar

/-!
# References and their texts

The separators `:` and `@` of the text of a reference stand in none of its parts, so the parts are
found again (`ModuleRef.parse?_eq_some_iff`). Reading and writing are therefore inverse to each
other, on the texts of the grammar and the references with well-formed parts
(`ModuleRef.IsWellFormed`).
-/

namespace StrictSchema

namespace ModuleRef

open ModuleGrammar

/-- A reference whose parts are of their languages. -/
structure IsWellFormed (m : ModuleRef) : Prop where
  space : m.space.toList ∈ ModuleGrammar.name
  name : m.name.toList ∈ ModuleGrammar.name
  version : m.version.toList ∈ ModuleGrammar.version
  preversion : m.preversion.toList ∈ ModuleGrammar.preversion

variable {m : ModuleRef}

theorem IsWellFormed.toList_text (h : m.IsWellFormed) : m.text.toList = m.space.toList ++
    ':' :: (m.name.toList ++ '@' :: 'v' :: (m.version.toList ++ m.preversion.toList)) := by
  have versioned : ¬ m.isVersionless := by
    rw [isVersionless, String.isEmpty_iff, ← String.toList_eq_nil_iff]
    exact ne_nil_of_mem_version h.version
  rw [text, if_neg versioned, versionlessText]
  simp [String.toList_append]

theorem IsWellFormed.at_notMem_versions (h : m.IsWellFormed) :
    '@' ∉ 'v' :: (m.version.toList ++ m.preversion.toList) := by
  have version := notMem_version (by decide : ¬ IsDigit '@') (by decide) h.version
  have preversion := notMem_preversion (by decide : ¬ IsLowerOrDigit '@') (by decide) h.preversion
  simp [version, preversion]

theorem IsWellFormed.colon_notMem_rest (h : m.IsWellFormed) :
    ':' ∉ m.name.toList ++ '@' :: 'v' :: (m.version.toList ++ m.preversion.toList) := by
  have name := notMem_name (by decide : ¬ IsLowerOrDigit ':') (by decide) _ h.name
  have version := notMem_version (by decide : ¬ IsDigit ':') (by decide) h.version
  have preversion := notMem_preversion (by decide : ¬ IsLowerOrDigit ':') (by decide) h.preversion
  simp [name, version, preversion]

/-- The text of a reference is read as the reference. -/
theorem IsWellFormed.parse?_text (h : m.IsWellFormed) : parse? m.text = some m := by
  have space : ':' ∉ m.space.toList := notMem_name (by decide) (by decide) _ h.space
  have label : '@' ∉ m.name.toList := notMem_name (by decide) (by decide) _ h.name
  obtain ⟨version, preversion⟩ := span_version h.version h.preversion
  have parts : (isName m.space.toList && isName m.name.toList &&
      isVersionNumber m.version.toList && isPreversion m.preversion.toList) = true := by
    simp only [Bool.and_eq_true, isName_iff, isVersionNumber_iff, isPreversion_iff]
    exact ⟨⟨⟨h.space, h.name⟩, h.version⟩, h.preversion⟩
  unfold parse?
  rw [h.toList_text, Text.cut_append space]
  simp only [Option.bind_eq_bind, Option.bind_some, Text.cut_append label]
  rw [version, preversion, if_pos parts]
  simp only [String.ofList_toList]

/-- Whatever is read as a reference is the text of it. -/
theorem isWellFormed_of_parse? {value : String} (h : parse? value = some m) :
    m.IsWellFormed ∧ m.text = value := by
  unfold parse? at h
  obtain ⟨⟨space, afterSpace⟩, hspace, rest⟩ := Option.bind_eq_some_iff.1 h
  obtain ⟨⟨label, afterName⟩, hlabel, built⟩ := Option.bind_eq_some_iff.1 rest
  dsimp only at built
  split at built
  · next numbers =>
    split_ifs at built with parts
    have hm := Option.some.inj built
    simp only [Bool.and_eq_true, isName_iff, isVersionNumber_iff, isPreversion_iff] at parts
    obtain ⟨⟨⟨inSpace, inName⟩, inVersion⟩, inPreversion⟩ := parts
    have wellFormed : m.IsWellFormed := by
      subst hm
      constructor <;> rwa [String.toList_ofList]
    refine ⟨wellFormed, String.toList_inj.1 ?_⟩
    rw [wellFormed.toList_text, Text.eq_of_cut hspace, Text.eq_of_cut hlabel, ← hm]
    simp only [String.toList_ofList, List.takeWhile_append_dropWhile]
  · cases built

theorem parse?_eq_some_iff {value : String} :
    parse? value = some m ↔ m.IsWellFormed ∧ m.text = value := by
  refine ⟨isWellFormed_of_parse?, ?_⟩
  rintro ⟨h, rfl⟩
  exact h.parse?_text

theorem parse_eq_ok_iff {value : String} :
    parse value = .ok m ↔ m.IsWellFormed ∧ m.text = value := by
  rw [← parse?_eq_some_iff, parse]
  cases parse? value with
  | none => exact iff_of_false nofun nofun
  | some n => rw [Except.ok.injEq, Option.some.injEq]

/-- The texts of the language are those of the references with well-formed parts. -/
theorem mem_reference_iff_exists {value : String} :
    value.toList ∈ reference ↔ ∃ m : ModuleRef, m.IsWellFormed ∧ m.text = value := by
  rw [mem_reference_iff]
  constructor
  · rintro ⟨space, hspace, label, hlabel, number, hnumber, suffix, hsuffix, joined⟩
    have wellFormed : IsWellFormed ⟨String.ofList space, String.ofList label, String.ofList number,
        String.ofList suffix⟩ := by
      constructor <;> rwa [String.toList_ofList]
    refine ⟨_, wellFormed, String.toList_inj.1 ?_⟩
    rw [wellFormed.toList_text, ← joined]
    simp only [String.toList_ofList]
  · rintro ⟨m, h, rfl⟩
    exact ⟨_, h.space, _, h.name, _, h.version, _, h.preversion, h.toList_text.symm⟩

/-- The first release of a module. -/
def firstRelease (space label : String) : ModuleRef :=
  { space := space, name := label, version := "1.0.0" }

theorem isWellFormed_firstRelease {space label : String} (hspace : isValidName space)
    (hlabel : isValidName label) : (firstRelease space label).IsWellFormed := by
  have version : isVersionNumber "1.0.0".toList := by decide
  have preversion : isPreversion "".toList := by decide
  exact ⟨isName_iff.1 hspace, isName_iff.1 hlabel, isVersionNumber_iff.1 version,
    isPreversion_iff.1 preversion⟩

theorem text_firstRelease (space label : String) :
    (firstRelease space label).text = space ++ ":" ++ label ++ "@v1.0.0" := by
  have versioned : ¬ (firstRelease space label).isVersionless := by
    show ¬ "1.0.0".isEmpty
    decide
  have version : "@v" ++ ("1.0.0" ++ "") = "@v1.0.0" := by decide
  rw [text, if_neg versioned, String.append_assoc, String.append_assoc]
  exact congrArg (space ++ ":" ++ label ++ ·) version

/-- Two texts and a version make a reference exactly if both texts can be names. -/
theorem exists_parse_firstRelease_iff {space label : String} :
    (∃ m, parse (space ++ ":" ++ label ++ "@v1.0.0") = .ok m) ↔
      isValidName space ∧ isValidName label := by
  constructor
  · rintro ⟨m, hm⟩
    obtain ⟨h, joined⟩ := parse_eq_ok_iff.1 hm
    have colon : ":".toList = [':'] := by decide
    have version : "@v1.0.0".toList = '@' :: "v1.0.0".toList := by decide
    have texts := h.toList_text
    rw [joined] at texts
    simp only [String.toList_append, List.append_assoc, colon, version, List.singleton_append]
      at texts
    -- one `:` and one `@` stand in the text of a reference, so it is cut in one way only
    obtain ⟨hspace, -, texts⟩ := (List.append_cons_inj_of_notMem
      (notMem_name (by decide) (by decide) _ h.space) h.colon_notMem_rest).1 texts.symm
    obtain ⟨hname, -, -⟩ := (List.append_cons_inj_of_notMem
      (notMem_name (by decide) (by decide) _ h.name) h.at_notMem_versions).1 texts
    exact ⟨isName_iff.2 (hspace ▸ h.space), isName_iff.2 (hname ▸ h.name)⟩
  · rintro ⟨hspace, hlabel⟩
    exact ⟨_, parse_eq_ok_iff.2 ⟨isWellFormed_firstRelease hspace hlabel, text_firstRelease _ _⟩⟩

/-- Reading and writing references are inverse to each other, on the texts of the language and the
references with well-formed parts. A text that is no reference has empty parts. -/
theorem parse_inverse_text :
    (∀ value, (∃ m, parse value = .ok m) ↔ value.toList ∈ reference) ∧
    (∀ value m, parse value = .ok m ↔ m.IsWellFormed ∧ m.text = value) ∧
    (∀ value m, parse value = .ok m → ofText value = m) ∧
    (∀ value, value.toList ∉ reference → ofText value = {}) ∧
    (∀ space label, (∃ m, parse (space ++ ":" ++ label ++ "@v1.0.0") = .ok m) ↔
      isValidName space ∧ isValidName label) ∧
    ∀ value, isValidName value ↔ IsHyphenated value.toList := by
  have accepted (value : String) : (∃ m, parse value = .ok m) ↔ value.toList ∈ reference := by
    rw [mem_reference_iff_exists]
    exact exists_congr fun _ => parse_eq_ok_iff
  refine ⟨accepted, fun _ _ => parse_eq_ok_iff, fun value m hm => ?_, fun value other => ?_,
    fun _ _ => exists_parse_firstRelease_iff, fun _ => isName_iff.trans isHyphenated_iff.symm⟩
  · rw [ofText, parse?_eq_some_iff.2 (parse_eq_ok_iff.1 hm), Option.getD_some]
  · have refused : parse? value = none := by
      refine Option.eq_none_iff_forall_ne_some.2 fun m hm => other ((accepted value).1 ⟨m, ?_⟩)
      exact parse_eq_ok_iff.2 (parse?_eq_some_iff.1 hm)
    rw [ofText, refused, Option.getD_none]

/-- A module with hyphens in its name and after its version. -/
def mainCharacter : ModuleRef :=
  { space := "story", name := "main-character", version := "1.2.3", preversion := "-beta-2" }

theorem parse_mainCharacter :
    parse "story:main-character@v1.2.3-beta-2" = .ok mainCharacter ∧
      mainCharacter.text = "story:main-character@v1.2.3-beta-2" ∧
      ofText "story:main-character@v1.2.3-beta-2" = mainCharacter ∧
      ofText "story:main-character@v1.2.3-beta-2\n" = {} := by
  have read : parse "story:main-character@v1.2.3-beta-2" = .ok mainCharacter := rfl
  have refused : parse "story:main-character@v1.2.3-beta-2\n" =
      .error (.invalidModule "story:main-character@v1.2.3-beta-2\n") := rfl
  obtain ⟨accepted, inverse, found, empty, -⟩ := parse_inverse_text
  refine ⟨read, ((inverse _ _).1 read).2, found _ _ read, empty _ fun mem => ?_⟩
  obtain ⟨m, hm⟩ := (accepted _).2 mem
  rw [refused] at hm
  cases hm

end ModuleRef

end StrictSchema
