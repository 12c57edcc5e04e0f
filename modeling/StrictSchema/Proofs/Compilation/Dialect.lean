import Mathlib.Tactic.SplitIfs
import StrictSchema.Proofs.Compilation.Types
import StrictSchema.Proofs.Schema.Nodes

/-!
# The strict dialect

A node is strict if it is a choice between alternatives and nothing else, or if it has no
alternatives, its types, format and keywords are those of the dialect, and it describes an object or
an array exactly if its types say so (`Schema.IsStrict`). A schema is in the dialect if all its
nodes are strict (`Schema.InDialect`, `Schema.inDialect_iff`). Admitting null leads from the dialect
into the dialect (`Schema.InDialect.withNull`).
-/

namespace StrictSchema

namespace Schema

/-- None of the keywords that rule a node out of the dialect is there. -/
structure NoForbidden (s : Schema) : Prop where
  const : s.const = none
  contains : s.contains = none
  uniqueItems : s.uniqueItems = false
  deprecated : s.deprecated = false
  readOnly : s.readOnly = false
  patternProperties : s.patternProperties = none
  additionalItems : s.additionalItems = none
  allOf : s.allOf = none
  oneOf : s.oneOf = none
  prefixItems : s.prefixItems = none

/-- There are properties, all of them are required, and nothing else is allowed. -/
structure IsClosedObject (s : Schema) : Prop where
  properties : s.properties ≠ []
  required : s.required = Members.names s.properties
  additionalProperties : s.additionalProperties = some .nothing

/-- Nothing is said about properties. -/
structure IsNoObject (s : Schema) : Prop where
  properties : s.properties = []
  required : s.required = []
  additionalProperties : s.additionalProperties = none

/-- There is a schema for all elements, or one for each of the first elements. -/
def HasItems (s : Schema) : Prop :=
  (∃ c, s.items = some (.single c)) ∨ ∃ cs, cs ≠ [] ∧ s.items = some (.tuple cs)

/-- A strict node without alternatives. -/
structure IsStrictNode (s : Schema) : Prop where
  anyOf : s.anyOf = []
  types : s.types.IsStrict
  format : ∀ format, s.format = some format → format ∈ supportedFormats
  noForbidden : s.NoForbidden
  not : s.not = none
  extra : s.extra = []
  object : if s.types.contains "object" then s.IsClosedObject else s.IsNoObject
  array : if s.types.contains "array" then s.HasItems else s.items = none

/-- A node as the dialect has it, its children aside. -/
inductive IsStrict (s : Schema) : Prop where
  | choice (hne : s.anyOf ≠ []) (honly : s = .ofAlternatives s.anyOf)
  | node (h : s.IsStrictNode)

/-- A schema of the dialect: a strict node whose children are in the dialect. -/
inductive InDialect : Schema → Prop where
  | intro {s : Schema} (hs : s.IsStrict) (hchildren : ∀ c, IsChild s c → InDialect c) : InDialect s

theorem InDialect.isStrict {s : Schema} (h : InDialect s) : s.IsStrict := by
  cases h with
  | intro hs _ => exact hs

theorem InDialect.child {s c : Schema} (h : InDialect s) (hc : IsChild s c) : InDialect c := by
  cases h with
  | intro _ hchildren => exact hchildren c hc

theorem inDialect_iff {s : Schema} : InDialect s ↔ ∀ d, IsNode s d → d.IsStrict := by
  constructor
  · intro h
    induction h with
    | @intro s hs _ ih =>
      intro d hd
      rcases (isNode_iff s d).1 hd with rfl | ⟨c, hc, hd⟩
      · exact hs
      · exact ih c hc d hd
  · intro h
    induction s using childInduction with
    | _ s ih =>
      exact .intro (h s (.refl s)) fun c hc => ih c hc fun d hd => h d (.of_child hc hd)

/-! ## Nodes without alternatives -/

theorem noForbidden_iff {s : Schema} : s.NoForbidden ↔ s.forbidden? = none := by
  constructor
  · rintro ⟨h₁, h₂, h₃, h₄, h₅, h₆, h₇, h₈, h₉, h₁₀⟩
    simp [forbidden?, forbiddenKeywords, h₁, h₂, h₃, h₄, h₅, h₆, h₇, h₈, h₉, h₁₀]
  · intro h
    simp only [forbidden?, forbiddenKeywords, Option.map_eq_none_iff, List.find?_eq_none,
      List.forall_mem_cons, List.not_mem_nil, false_implies, implies_true, and_true,
      Bool.not_eq_true, Option.isSome_eq_false_iff,
      Option.isNone_iff_eq_none] at h
    obtain ⟨h₁, h₂, h₃, h₄, h₅, h₆, h₇, h₈, h₉, h₁₀⟩ := h
    exact ⟨h₁, h₂, h₃, h₄, h₅, h₆, h₇, h₈, h₉, h₁₀⟩

section Node

variable {s : Schema} (h : s.IsStrictNode)
include h

theorem IsStrictNode.isClosedObject (hs : s.types.contains "object") : s.IsClosedObject := by
  have := h.object
  rwa [if_pos hs] at this

theorem IsStrictNode.isNoObject (hs : ¬ s.types.contains "object") : s.IsNoObject := by
  have := h.object
  rwa [if_neg hs] at this

theorem IsStrictNode.hasItems (hs : s.types.contains "array") : s.HasItems := by
  have := h.array
  rwa [if_pos hs] at this

theorem IsStrictNode.items_eq_none (hs : ¬ s.types.contains "array") : s.items = none := by
  have := h.array
  rwa [if_neg hs] at this

end Node

/-- Other strict types do not matter as long as they agree on objects and arrays. -/
theorem IsStrictNode.withTypes {s : Schema} (h : s.IsStrictNode) {types : TypeTags}
    (htypes : types.IsStrict) (hobject : types.contains "object" = s.types.contains "object")
    (harray : types.contains "array" = s.types.contains "array") :
    { s with types := types }.IsStrictNode where
  anyOf := h.anyOf
  types := htypes
  format := h.format
  noForbidden := by
    have hforbidden := noForbidden_iff.1 h.noForbidden
    exact noForbidden_iff.2 hforbidden
  not := h.not
  extra := h.extra
  object := by
    rw [hobject]
    split_ifs with hs
    · have hclosed := h.isClosedObject hs
      exact ⟨hclosed.properties, hclosed.required, hclosed.additionalProperties⟩
    · have hno := h.isNoObject hs
      exact ⟨hno.properties, hno.required, hno.additionalProperties⟩
  array := by
    rw [harray]
    exact h.array

theorem isStrictNode_null : (ofType "null").IsStrictNode where
  anyOf := rfl
  types := .single TypeTags.null_mem_supportedTypes
  format := nofun
  noForbidden := noForbidden_iff.2 rfl
  not := rfl
  extra := rfl
  object := by
    rw [if_neg (by decide)]
    exact ⟨rfl, rfl, rfl⟩
  array := by
    rw [if_neg (by decide)]
    rfl

/-! ## Admitting null -/

theorem withNull_choice {s : Schema} (h : s.anyOf ≠ []) :
    s.withNull = if s.anyOf.any fun c => c.types.isNullOnly then s
      else { s with anyOf := s.anyOf ++ [ofType "null"] } := by
  have hchoice : s.isChoice = true := by simpa [isChoice] using h
  rw [withNull, if_pos hchoice]

theorem withNull_node {s : Schema} (h : s.anyOf = []) :
    s.withNull = { s with types := s.types.withNull } := by
  have hchoice : ¬ s.isChoice = true := by simp [isChoice, h]
  rw [withNull, if_neg hchoice]

theorem inDialect_null : InDialect (ofType "null") := by
  refine .intro (.node isStrictNode_null) fun c hc => ?_
  cases hc with
  | alternative hc => cases hc
  | property hc => cases hc
  | item hc => cases hc
  | element hcs _ => cases hcs

theorem inDialect_ofAlternatives {cs : List Schema} (hne : cs ≠ [])
    (h : ∀ c ∈ cs, InDialect c) : InDialect (ofAlternatives cs) := by
  refine .intro (.choice hne rfl) fun c hc => ?_
  cases hc with
  | alternative hc => exact h c hc
  | property hc => cases hc
  | item hc => cases hc
  | element hcs _ => cases hcs

theorem InDialect.withNull {s : Schema} (h : InDialect s) : InDialect s.withNull := by
  cases h.isStrict with
  | choice hne honly =>
    rw [withNull_choice hne]
    split_ifs
    · exact h
    · have hpush : { s with anyOf := s.anyOf ++ [ofType "null"] } =
          ofAlternatives (s.anyOf ++ [ofType "null"]) := by
        rw [honly]
        rfl
      rw [hpush]
      refine inDialect_ofAlternatives (by simp) fun c hc => ?_
      rcases List.mem_append.1 hc with hc | hc
      · exact h.child (.alternative hc)
      · rw [List.mem_singleton] at hc
        exact hc ▸ inDialect_null
  | node hs =>
    rw [withNull_node hs.anyOf]
    refine .intro (.node (hs.withTypes hs.types.withNull (hs.types.contains_withNull (by decide))
      (hs.types.contains_withNull (by decide)))) fun c hc => h.child ?_
    -- the children are those of `s`
    cases hc with
    | alternative hc => exact .alternative hc
    | property hc => exact .property hc
    | item hc => exact .item hc
    | element hcs hc => exact .element hcs hc

end Schema

end StrictSchema
