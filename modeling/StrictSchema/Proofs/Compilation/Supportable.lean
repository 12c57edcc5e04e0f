import Mathlib.Logic.Basic
import StrictSchema.Proofs.Compilation.Dialect
import StrictSchema.Proofs.Compilation.Forms

/-!
# Which schemas have a form

A schema can be expressed in the strict dialect (`Supportable`) if one of its alternatives can or,
without alternatives, if its own keywords can (`Schema.IsExpressible`) and something expressible is
left among the properties of an object and among the items of an array. The predicate is decided by
`Schema.isSupportable`, which does not build any form, and it holds of exactly the schemas that have
one (`isSome_compile_iff`).
-/

namespace StrictSchema

namespace Schema

/-- One of the schemas satisfies `P`. -/
inductive SomeSatisfies (P : Schema → Prop) : List Schema → Prop where
  | intro {c : Schema} {cs : List Schema} (hc : c ∈ cs) (h : P c) : SomeSatisfies P cs

theorem someSatisfies_iff {P : Schema → Prop} {cs : List Schema} :
    SomeSatisfies P cs ↔ ∃ c ∈ cs, P c := by
  constructor
  · rintro ⟨hc, h⟩
    exact ⟨_, hc, h⟩
  · rintro ⟨c, hc, h⟩
    exact ⟨hc, h⟩

/-- The types, the format and the other keywords of a node do not rule it out. -/
structure IsExpressible (s : Schema) : Prop where
  types : ∃ name ∈ supportedTypes, s.types.contains name
  noForbidden : s.NoForbidden
  format : ∀ format, s.format = some format → format = "" ∨ format ∈ supportedFormats

end Schema

open Schema

/-- The least predicate that holds of a choice with such an alternative, and of an expressible node
with such a property if it is an object and such items if it is an array. -/
inductive Supportable : Schema → Prop where
  | choice {s : Schema} (h : SomeSatisfies Supportable s.anyOf) : Supportable s
  | node {s : Schema} (hnode : s.anyOf = []) (hexpressible : s.IsExpressible)
      (hobject : s.types.contains "object" → SomeSatisfies Supportable s.propertySchemas)
      (harray : s.types.contains "array" → SomeSatisfies Supportable s.itemSchemas) : Supportable s

theorem supportable_choice_iff {s : Schema} (h : s.anyOf ≠ []) :
    Supportable s ↔ ∃ c ∈ s.anyOf, Supportable c := by
  rw [← someSatisfies_iff]
  constructor
  · rintro (hsome | ⟨hnode, -, -, -⟩)
    · exact hsome
    · exact absurd hnode h
  · exact .choice

theorem supportable_node_iff {s : Schema} (h : s.anyOf = []) :
    Supportable s ↔ s.IsExpressible ∧
      (s.types.contains "object" → ∃ c ∈ s.propertySchemas, Supportable c) ∧
      (s.types.contains "array" → ∃ c ∈ s.itemSchemas, Supportable c) := by
  simp only [← someSatisfies_iff]
  constructor
  · rintro (⟨hc, -⟩ | ⟨-, hexpressible, hobject, harray⟩)
    · exact absurd (h ▸ hc) List.not_mem_nil
    · exact ⟨hexpressible, hobject, harray⟩
  · rintro ⟨hexpressible, hobject, harray⟩
    exact .node h hexpressible hobject harray

/-! ## Deciding it -/

namespace Schema

instance (s : Schema) : Decidable s.NoForbidden := decidable_of_iff _ noForbidden_iff.symm

instance (s : Schema) : Decidable s.IsExpressible :=
  decidable_of_iff ((∃ name ∈ supportedTypes, s.types.contains name) ∧ s.NoForbidden ∧
      ∀ format ∈ s.format, format = "" ∨ format ∈ supportedFormats)
    ⟨fun ⟨h₁, h₂, h₃⟩ => ⟨h₁, h₂, h₃⟩, fun ⟨h₁, h₂, h₃⟩ => ⟨h₁, h₂, h₃⟩⟩

mutual

/-- Whether the schema can be expressed. -/
def isSupportable : Schema → Bool
  | s@{ anyOf, items, properties, .. } =>
    if anyOf.isEmpty then
      decide s.IsExpressible && (!s.types.contains "object" || someProperty properties) &&
        (!s.types.contains "array" || someItem items)
    else someSupportable anyOf
termination_by structural s => s

/-- Whether one of the schemas can be expressed. -/
def someSupportable : List Schema → Bool
  | [] => false
  | s :: ss => isSupportable s || someSupportable ss
termination_by structural ss => ss

/-- Whether one of the properties can be expressed. -/
def someProperty : List (String × Schema) → Bool
  | [] => false
  | (_, s) :: ss => isSupportable s || someProperty ss
termination_by structural ss => ss

/-- Whether one of the schemas for elements can be expressed. -/
def someItem : Option (Items Schema) → Bool
  | none => false
  | some (.single s) => isSupportable s
  | some (.tuple ss) => someSupportable ss
termination_by structural items => items

end

theorem someSupportable_iff {ss : List Schema} :
    someSupportable ss ↔ ∃ c ∈ ss, c.isSupportable := by
  induction ss with
  | nil => simp [someSupportable]
  | cons s rest ih => simp [someSupportable, ih]

theorem someProperty_iff {ps : List (String × Schema)} :
    someProperty ps ↔ ∃ c ∈ ps.map Prod.snd, c.isSupportable := by
  induction ps with
  | nil => simp [someProperty]
  | cons p rest ih => simp [someProperty, ih]

theorem someItem_iff {s : Schema} : someItem s.items ↔ ∃ c ∈ s.itemSchemas, c.isSupportable := by
  unfold itemSchemas
  rcases s.items with _ | c | cs
  · simp [someItem]
  · simp [someItem]
  · rw [someItem, someSupportable_iff]

theorem isSupportable_eq (s : Schema) :
    s.isSupportable = if s.anyOf.isEmpty then
      decide s.IsExpressible && (!s.types.contains "object" || someProperty s.properties) &&
        (!s.types.contains "array" || someItem s.items)
    else someSupportable s.anyOf := by
  cases s
  rw [isSupportable]

theorem isSupportable_iff (s : Schema) : s.isSupportable ↔ Supportable s := by
  induction s using childInduction with
  | _ s ih =>
    rw [isSupportable_eq]
    by_cases hs : s.anyOf = []
    · have hproperties : (∃ c ∈ s.propertySchemas, c.isSupportable) ↔
          ∃ c ∈ s.propertySchemas, Supportable c :=
        exists_congr fun c => and_congr_right fun hc => ih c (.of_mem_propertySchemas hc)
      have hitems : (∃ c ∈ s.itemSchemas, c.isSupportable) ↔ ∃ c ∈ s.itemSchemas, Supportable c :=
        exists_congr fun c => and_congr_right fun hc => ih c (.of_mem_itemSchemas hc)
      rw [if_pos (List.isEmpty_iff.2 hs), supportable_node_iff hs, ← hproperties, ← hitems,
        ← someItem_iff, propertySchemas, ← someProperty_iff]
      simp only [Bool.and_eq_true, Bool.or_eq_true, Bool.not_eq_true', decide_eq_true_iff,
        and_assoc, imp_iff_not_or, Bool.not_eq_true]
    · rw [if_neg (mt List.isEmpty_iff.1 hs), supportable_choice_iff hs, someSupportable_iff]
      exact exists_congr fun c => and_congr_right fun hc => ih c (.alternative hc)

end Schema

instance : DecidablePred Supportable := fun s => decidable_of_iff _ (isSupportable_iff s)

/-! ## The schemas that have a form -/

theorem TypeTags.isSome_resolve_iff {t : TypeTags} :
    t.resolve.isSome ↔ ∃ name ∈ supportedTypes, t.contains name := by
  have hnames : t.names.filter supportedTypes.contains ≠ [] ↔
      ∃ name ∈ supportedTypes, t.contains name := by
    simp only [ne_eq, List.filter_eq_nil_iff, not_forall, not_not, List.contains_iff_mem,
      contains_iff, exists_prop, and_comm]
  rw [← hnames, resolve]
  split <;> simp_all

theorem Schema.exists_strictTypes_iff {s : Schema} :
    (∃ types, s.strictTypes = .ok types) ↔ s.IsExpressible := by
  have hformat : (∀ format, s.usedFormat = some format → format ∈ supportedFormats) ↔
      ∀ format, s.format = some format → format = "" ∨ format ∈ supportedFormats := by
    simp only [usedFormat, Option.filter_eq_some_iff, Bool.not_eq_true',
      String.isEmpty_eq_false_iff, and_imp, or_iff_not_imp_left]
  simp only [strictTypes_eq_ok_iff, ← noForbidden_iff, hformat, exists_and_right]
  rw [← Option.isSome_iff_exists, TypeTags.isSome_resolve_iff]
  exact ⟨fun ⟨h₁, h₂, h₃⟩ => ⟨h₁, h₂, h₃⟩, fun ⟨h₁, h₂, h₃⟩ => ⟨h₁, h₂, h₃⟩⟩

theorem filterMap_compile_ne_nil_iff {cs : List Schema} :
    cs.filterMap compile ≠ [] ↔ ∃ c ∈ cs, (compile c).isSome := by
  simp only [ne_eq, List.filterMap_eq_nil_iff, not_forall, exists_prop, Option.isSome_iff_ne_none]

theorem filterMap_propertyForm_ne_nil_iff (required : List String)
    {ps : List (String × Schema)} :
    ps.filterMap (propertyForm required) ≠ [] ↔ ∃ c ∈ ps.map Prod.snd, (compile c).isSome := by
  simp only [ne_eq, List.filterMap_eq_nil_iff, propertyForm, Option.map_eq_none_iff, not_forall,
    exists_prop, List.mem_map, exists_exists_and_eq_and, Option.isSome_iff_ne_none]

theorem itemsForm_ne_none_iff {s : Schema} :
    itemsForm s.items ≠ none ↔ ∃ c ∈ s.itemSchemas, (compile c).isSome := by
  unfold itemSchemas
  rcases s.items with _ | c | cs
  · simp [itemsForm]
  · simp [itemsForm, Option.isSome_iff_ne_none]
  · rw [← filterMap_compile_ne_nil_iff, itemsForm]
    simp

theorem isSome_compile_choice_iff {s : Schema} (h : s.anyOf ≠ []) :
    (compile s).isSome ↔ ∃ c ∈ s.anyOf, (compile c).isSome := by
  rw [← filterMap_compile_ne_nil_iff, compile_choice h]
  split_ifs with hkept <;> simp [hkept]

theorem isSome_compile_node_iff {s : Schema} (h : s.anyOf = []) :
    (compile s).isSome ↔ s.IsExpressible ∧
      (s.types.contains "object" → ∃ c ∈ s.propertySchemas, (compile c).isSome) ∧
      (s.types.contains "array" → ∃ c ∈ s.itemSchemas, (compile c).isSome) := by
  rw [← exists_strictTypes_iff, propertySchemas, ← itemsForm_ne_none_iff,
    ← filterMap_propertyForm_ne_nil_iff s.required, Option.isSome_iff_exists]
  simp only [compile_node_eq_some_iff h]
  constructor
  · rintro ⟨r, types, ht, hobject, harray, -⟩
    refine ⟨⟨types, ht⟩, fun h => ?_, fun h => ?_⟩
    · rw [← contains_object_of_strictTypes ht] at h
      have hne := hobject h
      rwa [formProperties, if_pos h] at hne
    · rw [← contains_array_of_strictTypes ht] at h
      have hne := harray h
      rwa [formItems, if_pos h] at hne
  · rintro ⟨⟨types, ht⟩, hobject, harray⟩
    refine ⟨_, types, ht, fun h => ?_, fun h => ?_, rfl⟩
    · rw [formProperties, if_pos h]
      exact hobject ((contains_object_of_strictTypes ht).symm.trans h)
    · rw [formItems, if_pos h]
      exact harray ((contains_array_of_strictTypes ht).symm.trans h)

/-- A schema has a form exactly if it can be expressed. -/
theorem isSome_compile_iff (s : Schema) : (compile s).isSome ↔ Supportable s := by
  induction s using childInduction with
  | _ s ih =>
    by_cases hs : s.anyOf = []
    · rw [isSome_compile_node_iff hs, supportable_node_iff hs]
      refine and_congr_right fun _ => and_congr (imp_congr_right fun _ => ?_)
        (imp_congr_right fun _ => ?_)
      · exact exists_congr fun c => and_congr_right fun hc => ih c (.of_mem_propertySchemas hc)
      · exact exists_congr fun c => and_congr_right fun hc => ih c (.of_mem_itemSchemas hc)
    · rw [isSome_compile_choice_iff hs, supportable_choice_iff hs]
      exact exists_congr fun c => and_congr_right fun hc => ih c (.alternative hc)

end StrictSchema
