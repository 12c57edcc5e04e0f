import StrictSchema.Proofs.Module.References

/-!
# Matching texts and matching references

A text matches itself, and a text without a version matches all texts whose versionless part it is
(`matchesModule_iff`). Since a versionless part is its own versionless part, this is a partial order
on all texts, whether they are references or not (`matchesModule_order`). On the texts of references
it says of their parts what it should (`matchesModule_references`).
-/

namespace StrictSchema

/-! ## Versionless parts -/

section Texts

variable {a b c value : String}

theorem versionlessPart_of_notMem (h : '@' ∉ value.toList) : versionlessPart value = value := by
  rw [versionlessPart, Text.cut_of_notMem h]

theorem versionlessPart_of_eq {before after : List Char} (h : '@' ∉ before)
    (hvalue : value.toList = before ++ '@' :: after) :
    versionlessPart value = String.ofList before := by
  rw [versionlessPart, hvalue, Text.cut_append h]

theorem at_notMem_versionlessPart (value : String) : '@' ∉ (versionlessPart value).toList := by
  by_cases version : '@' ∈ value.toList
  · obtain ⟨before, after, hvalue, hbefore⟩ := List.eq_append_cons_of_mem version
    rwa [versionlessPart_of_eq hbefore hvalue, String.toList_ofList]
  · rwa [versionlessPart_of_notMem version]

theorem versionlessPart_versionlessPart (value : String) :
    versionlessPart (versionlessPart value) = versionlessPart value :=
  versionlessPart_of_notMem (at_notMem_versionlessPart value)

/-! ## The order of texts -/

/-- A text is matched by itself and by its versionless part. -/
theorem matchesModule_iff : matchesModule a b ↔ a = b ∨ a = versionlessPart b := by
  rw [matchesModule]
  split_ifs with version
  · have other : a ≠ versionlessPart b := by
      rintro rfl
      exact at_notMem_versionlessPart b (List.contains_iff_mem.1 version)
    rw [beq_iff_eq, or_iff_left other, eq_comm]
  · have versionless := versionlessPart_of_notMem (mt List.contains_iff_mem.2 version)
    rw [beq_iff_eq, eq_comm]
    refine ⟨.inr, ?_⟩
    rintro (rfl | same)
    · exact versionless.symm
    · exact same

theorem matchesModule_self (a : String) : matchesModule a a := matchesModule_iff.2 (.inl rfl)

theorem matchesModule_versionlessPart (value : String) :
    matchesModule (versionlessPart value) value := matchesModule_iff.2 (.inr rfl)

theorem matchesModule_trans (hab : matchesModule a b) (hbc : matchesModule b c) :
    matchesModule a c := by
  rcases matchesModule_iff.1 hab with rfl | rfl
  · exact hbc
  · rcases matchesModule_iff.1 hbc with rfl | rfl
    · exact hab
    · rw [versionlessPart_versionlessPart]
      exact matchesModule_versionlessPart c

theorem matchesModule_antisymm (hab : matchesModule a b) (hba : matchesModule b a) : a = b := by
  rcases matchesModule_iff.1 hab with same | rfl
  · exact same
  · rcases matchesModule_iff.1 hba with same | same
    · exact same.symm
    · rw [same, versionlessPart_versionlessPart, versionlessPart_versionlessPart]

/-- The versionless part of a text is the only text without a version that matches it. -/
theorem matchesModule_versionless_iff :
    '@' ∉ a.toList ∧ matchesModule a value ↔ a = versionlessPart value := by
  constructor
  · rintro ⟨version, h⟩
    rcases matchesModule_iff.1 h with rfl | same
    · exact (versionlessPart_of_notMem version).symm
    · exact same
  · rintro rfl
    exact ⟨at_notMem_versionlessPart value, matchesModule_versionlessPart value⟩

end Texts

/-- Matching is a partial order on all texts, and below each text there is exactly one text without
a version, which is its versionless part. -/
theorem matchesModule_order :
    (∀ a, matchesModule a a) ∧
    (∀ a b c, matchesModule a b → matchesModule b c → matchesModule a c) ∧
    (∀ a b, matchesModule a b → matchesModule b a → a = b) ∧
    ∀ value, matchesModule (versionlessPart value) value ∧
      ∀ a, '@' ∉ a.toList ∧ matchesModule a value ↔ a = versionlessPart value :=
  ⟨matchesModule_self, fun _ _ _ => matchesModule_trans, fun _ _ => matchesModule_antisymm,
    fun value => ⟨matchesModule_versionlessPart value, fun _ => matchesModule_versionless_iff⟩⟩

/-- With several separators, or with one in front, a text is no reference. -/
theorem matchesModule_order_separators :
    (matchesModule "" "" ∧ matchesModule "" "@v1@v2" ∧ matchesModule "" "@v1@v2") ∧
    (matchesModule "a:b:c@" "a:b:c@" ∧ "a:b:c@" = "a:b:c@") ∧
    ¬ matchesModule "a:b" "a:b:c@" ∧
    ('@' ∉ "a:b:c".toList ∧ matchesModule "a:b:c" "a:b:c@") := by
  obtain ⟨self, trans, antisymm, versionless⟩ := matchesModule_order
  have below : matchesModule "" "@v1@v2" := by decide
  refine ⟨⟨self "", below, trans _ _ _ (self "") below⟩, ⟨self _, antisymm _ _ (self _) (self _)⟩,
    by decide, ((versionless "a:b:c@").2 "a:b:c").2 (by decide)⟩

/-! ## References -/

namespace ModuleRef

open ModuleGrammar

variable {m n : ModuleRef}

theorem toList_versionlessText (m : ModuleRef) :
    m.versionlessText.toList = m.space.toList ++ ':' :: m.name.toList := by
  simp [versionlessText]

theorem IsWellFormed.at_notMem_versionlessText (h : m.IsWellFormed) :
    '@' ∉ m.versionlessText.toList := by
  have space := notMem_name (by decide : ¬ IsLowerOrDigit '@') (by decide) _ h.space
  have label := notMem_name (by decide : ¬ IsLowerOrDigit '@') (by decide) _ h.name
  rw [toList_versionlessText]
  simp [space, label]

/-- The versionless part of the text of a reference is its text without version. -/
theorem IsWellFormed.versionlessPart_text (h : m.IsWellFormed) :
    versionlessPart m.text = m.versionlessText := by
  have joined : m.text.toList =
      m.versionlessText.toList ++ '@' :: 'v' :: (m.version.toList ++ m.preversion.toList) := by
    rw [h.toList_text, toList_versionlessText, List.append_assoc, List.cons_append]
  rw [versionlessPart_of_eq h.at_notMem_versionlessText joined, String.ofList_toList]

theorem IsWellFormed.versionlessText_inj (h : m.IsWellFormed) :
    m.versionlessText = n.versionlessText ↔ m.space = n.space ∧ m.name = n.name := by
  have space : ':' ∉ m.space.toList := notMem_name (by decide) (by decide) _ h.space
  have label : ':' ∉ m.name.toList := notMem_name (by decide) (by decide) _ h.name
  rw [← String.toList_inj, toList_versionlessText, toList_versionlessText,
    List.append_cons_inj_of_notMem space label, String.toList_inj, String.toList_inj,
    eq_self_iff_true, true_and]

theorem IsWellFormed.text_inj (hm : m.IsWellFormed) (hn : n.IsWellFormed) :
    m.text = n.text ↔ m = n := by
  refine ⟨fun same => Option.some.inj ?_, congrArg text⟩
  rw [← hm.parse?_text, same, hn.parse?_text]

/-- The text of a reference has a version, so it is no versionless part. -/
theorem IsWellFormed.text_ne_versionlessPart (h : m.IsWellFormed) (value : String) :
    m.text ≠ versionlessPart value := by
  intro same
  refine at_notMem_versionlessPart value ?_
  rw [← same, h.toList_text]
  simp

end ModuleRef

/-- Matching the texts of references is comparing their parts: a text without version matches the
references of the same namespace and name, and the text of a reference matches only this one. -/
theorem matchesModule_references {v w : String} {m n : ModuleRef} (hm : ModuleRef.parse v = .ok m)
    (hn : ModuleRef.parse w = .ok n) :
    versionlessPart v = m.versionlessText ∧
    (matchesModule m.versionlessText w ↔ m.space = n.space ∧ m.name = n.name) ∧
    (matchesModule v w ↔ m = n) := by
  obtain ⟨wellFormed, rfl⟩ := ModuleRef.parse_eq_ok_iff.1 hm
  obtain ⟨wellFormed', rfl⟩ := ModuleRef.parse_eq_ok_iff.1 hn
  have versioned : m.versionlessText ≠ n.text := by
    intro same
    refine wellFormed'.text_ne_versionlessPart m.text ?_
    rw [← same, wellFormed.versionlessPart_text]
  refine ⟨wellFormed.versionlessPart_text, ?_, ?_⟩
  · rw [matchesModule_iff, or_iff_right versioned, wellFormed'.versionlessPart_text,
      wellFormed.versionlessText_inj]
  · rw [matchesModule_iff, or_iff_left (wellFormed.text_ne_versionlessPart _),
      wellFormed.text_inj wellFormed']

/-- Two versions of one module, the second with a pre-version of several segments. -/
theorem matchesModule_references_versions :
    ModuleRef.parse "story:main-character@v1.2.3" =
        .ok { space := "story", name := "main-character", version := "1.2.3" } ∧
    ModuleRef.parse "story:main-character@v1.2.3-beta-2" =
        .ok { space := "story", name := "main-character", version := "1.2.3",
              preversion := "-beta-2" } ∧
    versionlessPart "story:main-character@v1.2.3" = "story:main-character" ∧
    matchesModule "story:main-character" "story:main-character@v1.2.3-beta-2" ∧
    ¬ matchesModule "story:main-character@v1.2.3" "story:main-character@v1.2.3-beta-2" := by
  have release : ModuleRef.parse "story:main-character@v1.2.3" =
      .ok { space := "story", name := "main-character", version := "1.2.3" } := rfl
  have beta : ModuleRef.parse "story:main-character@v1.2.3-beta-2" =
      .ok { space := "story", name := "main-character", version := "1.2.3",
            preversion := "-beta-2" } := rfl
  obtain ⟨part, versionless, exact⟩ := matchesModule_references release beta
  refine ⟨release, beta, part, versionless.2 ⟨rfl, rfl⟩, fun h => ?_⟩
  exact absurd (exact.1 h) (by decide)

end StrictSchema
