import StrictSchema.Proofs.Schema.Parts

/-!
# The two forms of type names

A document gives the types of a node as one name or as a list of names. In memory a node may have
both (`TypeTags.IsMixed`), and `TypeTags.merged` puts them into the list. `Schema.mapTypes` changes
the types of all nodes of a document and nothing else; it leaves a schema alone exactly if it leaves
the types of each node alone (`Schema.mapTypes_eq_self_iff`).
-/

namespace StrictSchema

namespace TypeTags

/-- There are a single name and a list that is not empty. -/
def IsMixed (t : TypeTags) : Prop := t.scalar ≠ none ∧ t.list ≠ []

/-- The names of mixed types in one list, with the single name at its end unless the list has it.
Other types stay. -/
def merged (t : TypeTags) : TypeTags :=
  match t.scalar, t.list with
  | some name, first :: rest =>
    .many (if name ∈ first :: rest then first :: rest else first :: rest ++ [name])
  | _, _ => t

theorem merged_eq_self_iff {t : TypeTags} : t.merged = t ↔ ¬ t.IsMixed := by
  rcases t with ⟨_ | name, _ | ⟨first, rest⟩⟩
  · simp [merged, IsMixed]
  · simp [merged, IsMixed]
  · simp [merged, IsMixed]
  · simp [merged, IsMixed, many]

end TypeTags

namespace Schema

mutual

/-- The schema with `g` applied to the types of each node within it. -/
def mapTypes (g : TypeTags → TypeTags) : Schema → Schema
  | s@{ types, anyOf, items, properties, additionalProperties, not, contains, patternProperties,
         additionalItems, allOf, oneOf, prefixItems, .. } =>
    { s with
      types := g types
      anyOf := mapTypesEach g anyOf
      items := mapTypesItems g items
      properties := mapTypesNamed g properties
      additionalProperties := mapTypesAdditional g additionalProperties
      not := mapTypesOption g not
      contains := mapTypesOption g contains
      patternProperties := mapTypesNamedOption g patternProperties
      additionalItems := mapTypesOption g additionalItems
      allOf := mapTypesEachOption g allOf
      oneOf := mapTypesEachOption g oneOf
      prefixItems := mapTypesEachOption g prefixItems }
termination_by structural s => s

def mapTypesEach (g : TypeTags → TypeTags) : List Schema → List Schema
  | [] => []
  | s :: ss => mapTypes g s :: mapTypesEach g ss
termination_by structural ss => ss

def mapTypesNamed (g : TypeTags → TypeTags) : List (String × Schema) → List (String × Schema)
  | [] => []
  | (name, s) :: ss => (name, mapTypes g s) :: mapTypesNamed g ss
termination_by structural ss => ss

def mapTypesOption (g : TypeTags → TypeTags) : Option Schema → Option Schema
  | none => none
  | some s => some (mapTypes g s)
termination_by structural s => s

def mapTypesEachOption (g : TypeTags → TypeTags) : Option (List Schema) → Option (List Schema)
  | none => none
  | some ss => some (mapTypesEach g ss)
termination_by structural ss => ss

def mapTypesNamedOption (g : TypeTags → TypeTags) :
    Option (List (String × Schema)) → Option (List (String × Schema))
  | none => none
  | some ss => some (mapTypesNamed g ss)
termination_by structural ss => ss

def mapTypesItems (g : TypeTags → TypeTags) : Option (Items Schema) → Option (Items Schema)
  | none => none
  | some (.single s) => some (.single (mapTypes g s))
  | some (.tuple ss) => some (.tuple (mapTypesEach g ss))
termination_by structural items => items

def mapTypesAdditional (g : TypeTags → TypeTags) :
    Option (AdditionalProperties Schema) → Option (AdditionalProperties Schema)
  | none => none
  | some (.allowed yes) => some (.allowed yes)
  | some (.schema s) => some (.schema (mapTypes g s))
termination_by structural additionalProperties => additionalProperties

end

theorem mapTypesEach_eq (g : TypeTags → TypeTags) (ss : List Schema) :
    mapTypesEach g ss = ss.map (mapTypes g) := by
  induction ss with
  | nil => rw [mapTypesEach, List.map_nil]
  | cons s rest ih => rw [mapTypesEach, List.map_cons, ih]

theorem mapTypesNamed_eq (g : TypeTags → TypeTags) (ps : List (String × Schema)) :
    mapTypesNamed g ps = ps.map (Prod.map id (mapTypes g)) := by
  induction ps with
  | nil => rw [mapTypesNamed, List.map_nil]
  | cons p rest ih =>
    rw [mapTypesNamed, List.map_cons, ih]
    rfl

theorem mapTypes_eq (g : TypeTags → TypeTags) (s : Schema) :
    s.mapTypes g = { s.mapParts (mapTypes g) with types := g s.types } := by
  cases s with
  | mk types anyOf limits format items properties required additionalProperties not const contains
      uniqueItems deprecated readOnly patternProperties additionalItems allOf oneOf prefixItems =>
    have hoption (c : Option Schema) : mapTypesOption g c = c.map (mapTypes g) := by
      cases c <;> simp [mapTypesOption]
    have hlist (cs : Option (List Schema)) :
        mapTypesEachOption g cs = cs.map (List.map (mapTypes g)) := by
      cases cs <;> simp [mapTypesEachOption, mapTypesEach_eq]
    have hnamed (ps : Option (List (String × Schema))) :
        mapTypesNamedOption g ps = ps.map (List.map (Prod.map id (mapTypes g))) := by
      cases ps <;> simp [mapTypesNamedOption, mapTypesNamed_eq]
    have hitems : mapTypesItems g items = items.map (.map (mapTypes g)) := by
      rcases items with _ | c | cs <;> simp [mapTypesItems, mapTypesEach_eq, Items.map]
    have hadditional : mapTypesAdditional g additionalProperties =
        additionalProperties.map (.map (mapTypes g)) := by
      rcases additionalProperties with _ | yes | c <;>
        simp [mapTypesAdditional, AdditionalProperties.map]
    simp only [mapTypes, mapParts, mapTypesEach_eq, mapTypesNamed_eq, hoption, hlist, hnamed,
      hitems, hadditional]

/-- A schema stays as it is exactly if the types of all nodes within it do. -/
theorem mapTypes_eq_self_iff {g : TypeTags → TypeTags} {s : Schema} :
    s.mapTypes g = s ↔ ∀ d, IsWithin s d → g d.types = d.types := by
  induction s using partInduction with
  | _ s ih =>
    have hnode : s.mapTypes g = s ↔ g s.types = s.types ∧ s.mapParts (mapTypes g) = s := by
      rw [mapTypes_eq]
      constructor
      · intro h
        have htypes : g s.types = s.types := congrArg types h
        refine ⟨htypes, ?_⟩
        rwa [htypes] at h
      · rintro ⟨htypes, hparts⟩
        rw [hparts, htypes]
        cases s
        rfl
    rw [hnode, mapParts_eq_self_iff, forall_isWithin_iff]
    exact and_congr_right fun _ => forall₂_congr fun c hc => ih c hc

end Schema

end StrictSchema
