import StrictSchema.Proofs.Compilation.FixedPoints
import StrictSchema.Proofs.Compilation.Sources

/-!
# Optional properties and null

A property of a form is the form of a property of the source, as it is if the property was required
and with null added if it was optional (`optional_becomes_nullable`). Adding null makes the property
admit null (`Schema.AdmitsNull`) and changes nothing else: the types or the alternatives that were
there stay in front (`Schema.NullAdded`), and what names null already stays as it is.
-/

namespace StrictSchema

namespace Schema

/-- One of the alternatives admits null or, without alternatives, null is among the types. -/
inductive AdmitsNull : Schema → Prop where
  | choice {s c : Schema} (hc : c ∈ s.anyOf) (h : AdmitsNull c) : AdmitsNull s
  | node {s : Schema} (hnode : s.anyOf = []) (h : s.types.contains "null") : AdmitsNull s

/-- Null is named among the types, or it is all that one of the alternatives names. -/
def NamesNull (s : Schema) : Prop :=
  s.types.contains "null" ∨ ∃ c ∈ s.anyOf, c.types.isNullOnly

/-- `t` is `s` with null added at the end of its types or of its alternatives, if it was not there
yet, and with nothing else changed. -/
structure NullAdded (s t : Schema) : Prop where
  admitsNull : t.AdmitsNull
  types : t.types.names = s.types.names ∨
    t.types.names = s.types.names ++ ["null"] ∧ t.anyOf = s.anyOf
  anyOf : t.anyOf = s.anyOf ∨ t.anyOf = s.anyOf ++ [ofType "null"] ∧ t.types = s.types
  others : t = { s with types := t.types, anyOf := t.anyOf }
  unchanged : s.NamesNull → t = s

end Schema

/-! ## Adding null -/

namespace TypeTags

theorem IsStrict.names_withNull {t : TypeTags} (h : t.IsStrict) :
    t.withNull.names = if t.contains "null" then t.names else t.names ++ ["null"] := by
  cases h with
  | @single name =>
    have null : (TypeTags.single name).contains "null" ↔ name = "null" := by
      rw [contains_iff, names_single, List.mem_singleton, eq_comm]
    simp only [withNull_single, null]
    split_ifs
    · rfl
    · exact names_many _
  | many =>
    simp only [withNull_many, contains_iff, names_many]
    split_ifs <;> exact names_many _

theorem IsStrict.withNull_eq_self {t : TypeTags} (h : t.IsStrict) (null : t.contains "null") :
    t.withNull = t := by
  rw [contains_iff] at null
  cases h with
  | single _ => rw [withNull_single, if_pos (List.mem_singleton.1 null).symm]
  | many _ _ =>
    rw [names_many] at null
    rw [withNull_many, if_pos null]

end TypeTags

namespace Schema

variable {s : Schema}

theorem admitsNull_null : (ofType "null").AdmitsNull := .node rfl rfl

/-- A schema of the dialect that names null only admits it. -/
theorem InDialect.admitsNull (h : s.InDialect) (null : s.types.isNullOnly) : s.AdmitsNull := by
  cases h.isStrict with
  | choice _ honly =>
    rw [honly] at null
    cases null
  | node hs =>
    obtain ⟨name, mem⟩ := List.exists_mem_of_ne_nil _ hs.types.names_ne_nil
    have all := List.all_eq_true.1 (Bool.and_eq_true_iff.1 null).2 name mem
    exact .node hs.anyOf (TypeTags.contains_iff.2 (beq_iff_eq.1 all ▸ mem))

theorem nullAdded_choice (h : s.InDialect) (hne : s.anyOf ≠ [])
    (honly : s = .ofAlternatives s.anyOf) : s.NullAdded s.withNull := by
  rw [withNull_choice hne]
  split_ifs with null
  · obtain ⟨c, hc, hnull⟩ := List.any_eq_true.1 null
    exact {
      admitsNull := .choice hc ((h.child (.alternative hc)).admitsNull hnull)
      types := .inl rfl
      anyOf := .inl rfl
      others := by cases s; rfl
      unchanged := fun _ => rfl }
  · refine {
      admitsNull := .choice (List.mem_append_right _ (List.mem_singleton_self _)) admitsNull_null
      types := .inl rfl
      anyOf := .inr ⟨rfl, rfl⟩
      others := rfl
      unchanged := fun named => ?_ }
    rcases named with named | ⟨c, hc, hnull⟩
    · rw [honly] at named
      cases named
    · exact absurd (List.any_eq_true.2 ⟨c, hc, hnull⟩) null

theorem IsStrictNode.nullAdded (h : s.IsStrictNode) : s.NullAdded s.withNull := by
  rw [withNull_node h.anyOf]
  exact {
    admitsNull := .node h.anyOf (TypeTags.contains_iff.2 (h.types.mem_names_withNull.2 (.inr rfl)))
    types := by
      rw [h.types.names_withNull]
      split_ifs
      · exact .inl rfl
      · exact .inr ⟨rfl, rfl⟩
    anyOf := .inl rfl
    others := rfl
    unchanged := by
      rintro (named | ⟨c, hc, -⟩)
      · rw [h.types.withNull_eq_self named]
        cases s
        rfl
      · rw [h.anyOf] at hc
        cases hc }

theorem InDialect.nullAdded (h : s.InDialect) : s.NullAdded s.withNull := by
  cases h.isStrict with
  | choice hne honly => exact nullAdded_choice h hne honly
  | node hs => exact hs.nullAdded

end Schema

/-! ## The properties of a form -/

open Schema

/-- What becomes of a property that has a form. -/
structure PropertyOutcome (required : List String) (p q : String × Schema) : Prop where
  name : q.1 = p.1
  form : ∃ e, compile p.2 = some e ∧ (p.1 ∈ required → q.2 = e) ∧
    (p.1 ∉ required → e.NullAdded q.2)

theorem propertyOutcome {required : List String} {p q : String × Schema}
    (h : propertyForm required p = some q) : PropertyOutcome required p q := by
  obtain ⟨e, form, rfl⟩ := Option.map_eq_some_iff.1 h
  refine ⟨rfl, e, form, fun mem => ?_, fun notMem => ?_⟩
  · exact if_pos (List.contains_iff_mem.2 mem)
  · dsimp only
    rw [if_neg (mt List.contains_iff_mem.1 notMem)]
    exact (inDialect_of_compile form).nullAdded

theorem propertyOutcomes {d c : Schema} (h : FormOf d c) (object : c.types.contains "object") :
    List.Forall₂ (PropertyOutcome d.required) (propertiesWithForm d.properties) c.properties := by
  rw [h.properties, if_pos object, propertiesWithForm_eq d.required]
  exact (forall₂_filter_filterMap (propertyForm d.required) d.properties).imp
    fun _ _ => propertyOutcome

/-- Each object of a form comes from a node of the source. Its properties are those of the source
that have a form, in order: one that was required is its own form, and one that was optional is this
form with null added. Compiling the form again changes nothing. -/
theorem optional_becomes_nullable {s r : Schema} (h : compile s = some r) :
    (∀ c, r.IsNode c → c.types.contains "object" → ∃ d, ComesFrom s r d c) ∧
      (∀ d c, ComesFrom s r d c → c.types.contains "object" →
        List.Forall₂ (PropertyOutcome d.required) (propertiesWithForm d.properties)
          c.properties) ∧
      compile r = some r := by
  refine ⟨fun c hc object => ?_, fun d c hc object => propertyOutcomes (hc.formOf h) object,
    (inDialect_of_compile h).compile_eq⟩
  rcases eq_null_or_comesFrom h hc with rfl | source
  · cases object
  · exact source

/-- A place with an optional town, a required code and a part that cannot be expressed. -/
def place : Schema :=
  { object [("town", { types := .many ["string", "integer"] }),
      ("code", ofAlternatives [ofType "number", ofType "null"]),
      ("tags", { ofType "string" with uniqueItems := true })] with
    required := ["code"] }

/-- The form of `place` where the place itself is optional. -/
def optionalPlaceForm : Schema :=
  { types := .many ["object", "null"], required := ["town", "code"]
    additionalProperties := some .nothing
    properties := [("town", { types := .many ["string", "integer", "null"] }),
      ("code", ofAlternatives [ofType "number", ofType "null"])] }

/-- An object with an optional place. -/
def visit : Schema := object [("place", place)]

/-- The form of `visit`. -/
def visitForm : Schema :=
  { types := .single "object", required := ["place"], additionalProperties := some .nothing
    properties := [("place", optionalPlaceForm)] }

theorem optional_becomes_nullable_visit :
    compile visit = some visitForm ∧ visitForm.IsNode optionalPlaceForm ∧
      ComesFrom visit visitForm place optionalPlaceForm ∧
      NullAdded { types := .many ["string", "integer"] }
        { types := .many ["string", "integer", "null"] } ∧
      compile visitForm = some visitForm := by
  have form : compile visit = some visitForm := rfl
  have node : visitForm.IsNode optionalPlaceForm :=
    .of_child (.property List.mem_cons_self) (.refl _)
  have source : ComesFrom visit visitForm place optionalPlaceForm :=
    .single (.property (p := ("place", place)) (q := ("place", optionalPlaceForm))
      List.mem_cons_self)
  obtain ⟨-, outcomes, again⟩ := optional_becomes_nullable form
  refine ⟨form, node, source, ?_, again⟩
  cases outcomes place optionalPlaceForm source rfl with
  | cons town _ =>
    obtain ⟨e, he, -, optional⟩ := town.form
    cases he
    exact optional (by decide)

end StrictSchema
