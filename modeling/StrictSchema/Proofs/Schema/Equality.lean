import StrictSchema.Proofs.Members
import StrictSchema.Proofs.Schema.Keywords
import StrictSchema.Schema.Equality

/-!
# Equality keyword by keyword

Two nodes are equal exactly if what they have under each keyword is equal (`Schema.SameAt`), and
their unknown members are (`Schema.equiv_iff`). Lists are equal position by position
(`List.Forall₂`), and maps if they have as many members, each with its equal under the same name
(`Members.Rel`).
-/

namespace StrictSchema

/-! ## Lists, maps and absent values -/

theorem optionEquiv_iff {α : Type} {equiv : α → α → Bool} {x y : Option α} :
    optionEquiv equiv x y ↔ Option.Rel (fun a b => equiv a b) x y := by
  cases x <;> cases y
  case some.some a b => exact ⟨fun h => .some h, fun | .some h => h⟩
  case none.none => exact iff_of_true rfl .none
  all_goals exact iff_of_false nofun nofun

namespace Json

theorem equivElements_iff {xs ys : List Json} :
    equivElements xs ys ↔ List.Forall₂ (fun x y => x.equiv y) xs ys := by
  induction xs generalizing ys with
  | nil => cases ys <;> simp [equivElements]
  | cons x xs ih => cases ys <;> simp [equivElements, ih]

theorem equivMembers_iff {xs ys : List (String × Json)} : equivMembers xs ys ↔
    ∀ m ∈ xs, ∃ y, Members.find? m.1 ys = some y ∧ m.2.equiv y := by
  induction xs with
  | nil => exact iff_of_true rfl nofun
  | cons m xs ih =>
    rw [equivMembers, Bool.and_eq_true, ih, List.forall_mem_cons]
    refine and_congr_left fun _ => ?_
    cases Members.find? m.1 ys <;> simp

theorem equiv_array_iff {xs ys : List Json} :
    (array xs).equiv (array ys) ↔ List.Forall₂ (fun x y => x.equiv y) xs ys :=
  equivElements_iff

theorem equiv_object_iff {xs ys : List (String × Json)} :
    (object xs).equiv (object ys) ↔ Members.Rel (fun x y => x.equiv y) xs ys := by
  rw [equiv, Bool.and_eq_true, beq_iff_eq, equivMembers_iff]
  exact ⟨fun h => ⟨h.1, h.2⟩, fun h => ⟨h.length, h.found⟩⟩

end Json

/-- Related values of `items`, of the same form. -/
inductive Items.Rel {σ : Type} (R : σ → σ → Prop) : Items σ → Items σ → Prop where
  | single {s t : σ} (h : R s t) : Items.Rel R (.single s) (.single t)
  | tuple {ss ts : List σ} (h : List.Forall₂ R ss ts) : Items.Rel R (.tuple ss) (.tuple ts)

/-- Related values of `additionalProperties`, of the same form. -/
inductive AdditionalProperties.Rel {σ : Type} (R : σ → σ → Prop) :
    AdditionalProperties σ → AdditionalProperties σ → Prop where
  | allowed (yes : Bool) : AdditionalProperties.Rel R (.allowed yes) (.allowed yes)
  | schema {s t : σ} (h : R s t) : AdditionalProperties.Rel R (.schema s) (.schema t)

namespace Schema

theorem equivEach_iff {ss ts : List Schema} :
    equivEach ss ts ↔ List.Forall₂ (fun s t => s.equiv t) ss ts := by
  induction ss generalizing ts with
  | nil => cases ts <;> simp [equivEach]
  | cons s ss ih => cases ts <;> simp [equivEach, ih]

theorem equivMembers_iff {ps qs : List (String × Schema)} : equivMembers ps qs ↔
    ∀ p ∈ ps, ∃ t, Members.find? p.1 qs = some t ∧ p.2.equiv t := by
  induction ps with
  | nil => exact iff_of_true rfl nofun
  | cons p ps ih =>
    rw [equivMembers, Bool.and_eq_true, ih, List.forall_mem_cons]
    refine and_congr_left fun _ => ?_
    cases Members.find? p.1 qs <;> simp

theorem equivOption_iff {s t : Option Schema} :
    equivOption s t ↔ Option.Rel (fun s t => s.equiv t) s t := by
  cases s <;> cases t
  case some.some s t => exact ⟨fun h => .some h, fun | .some h => h⟩
  case none.none => exact iff_of_true rfl .none
  all_goals exact iff_of_false nofun nofun

theorem equivEachOption_iff {ss ts : Option (List Schema)} :
    equivEachOption ss ts ↔ Option.Rel (List.Forall₂ fun s t => s.equiv t) ss ts := by
  cases ss <;> cases ts
  case some.some ss ts => exact equivEach_iff.trans ⟨.some, fun | .some h => h⟩
  case none.none => exact iff_of_true rfl .none
  all_goals exact iff_of_false nofun nofun

theorem equivMapOption_iff {ps qs : Option (List (String × Schema))} :
    equivMapOption ps qs ↔ Option.Rel (Members.Rel fun s t => s.equiv t) ps qs := by
  cases ps <;> cases qs
  case some.some ps qs =>
    rw [equivMapOption, Bool.and_eq_true, beq_iff_eq, equivMembers_iff]
    exact ⟨fun h => .some ⟨h.1, h.2⟩, fun | .some h => ⟨h.length, h.found⟩⟩
  case none.none => exact iff_of_true rfl .none
  all_goals exact iff_of_false nofun nofun

theorem equivItems_iff {items others : Option (Items Schema)} :
    equivItems items others ↔ Option.Rel (Items.Rel fun s t => s.equiv t) items others := by
  rcases items with _ | s | ss <;> rcases others with _ | t | ts
  case none.none => exact iff_of_true rfl .none
  case some.single.some.single =>
    exact ⟨fun h => .some (.single h), fun | .some (.single h) => h⟩
  case some.tuple.some.tuple =>
    exact equivEach_iff.trans ⟨fun h => .some (.tuple h), fun | .some (.tuple h) => h⟩
  all_goals exact iff_of_false nofun nofun

theorem equivAdditionalProperties_iff {a b : Option (AdditionalProperties Schema)} :
    equivAdditionalProperties a b ↔
      Option.Rel (AdditionalProperties.Rel fun s t => s.equiv t) a b := by
  rcases a with _ | yes | s <;> rcases b with _ | no | t
  case none.none => exact iff_of_true rfl .none
  case some.allowed.some.allowed =>
    rw [equivAdditionalProperties, beq_iff_eq]
    refine ⟨?_, fun | .some (.allowed _) => rfl⟩
    rintro rfl
    exact .some (.allowed yes)
  case some.schema.some.schema =>
    exact ⟨fun h => .some (.schema h), fun | .some (.schema h) => h⟩
  all_goals exact iff_of_false nofun nofun

/-! ## Keyword by keyword -/

/-- What the two nodes have under the keyword is equal. -/
def SameAt (s t : Schema) : Keyword → Prop
  | .type => s.types = t.types
  | .anyOf => List.Forall₂ (fun s t => s.equiv t) s.anyOf t.anyOf
  | .minLength => s.limits.minLength = t.limits.minLength
  | .maxLength => s.limits.maxLength = t.limits.maxLength
  | .pattern => s.limits.pattern = t.limits.pattern
  | .format => s.format = t.format
  | .multipleOf => Option.Rel (fun m n => m.equiv n) s.limits.multipleOf t.limits.multipleOf
  | .maximum => Option.Rel (fun m n => m.equiv n) s.limits.maximum t.limits.maximum
  | .exclusiveMaximum =>
    Option.Rel (fun m n => m.equiv n) s.limits.exclusiveMaximum t.limits.exclusiveMaximum
  | .minimum => Option.Rel (fun m n => m.equiv n) s.limits.minimum t.limits.minimum
  | .exclusiveMinimum =>
    Option.Rel (fun m n => m.equiv n) s.limits.exclusiveMinimum t.limits.exclusiveMinimum
  | .minItems => s.limits.minItems = t.limits.minItems
  | .maxItems => s.limits.maxItems = t.limits.maxItems
  | .items => Option.Rel (Items.Rel fun s t => s.equiv t) s.items t.items
  | .properties => Members.Rel (fun s t => s.equiv t) s.properties t.properties
  | .required => s.required = t.required
  | .additionalProperties => Option.Rel (AdditionalProperties.Rel fun s t => s.equiv t)
      s.additionalProperties t.additionalProperties
  | .not => Option.Rel (fun s t => s.equiv t) s.not t.not
  | .const => Option.Rel (fun v w => v.equiv w) s.const t.const
  | .contains => Option.Rel (fun s t => s.equiv t) s.contains t.contains
  | .uniqueItems => s.uniqueItems = t.uniqueItems
  | .deprecated => s.deprecated = t.deprecated
  | .readOnly => s.readOnly = t.readOnly
  | .patternProperties =>
    Option.Rel (Members.Rel fun s t => s.equiv t) s.patternProperties t.patternProperties
  | .additionalItems => Option.Rel (fun s t => s.equiv t) s.additionalItems t.additionalItems
  | .allOf => Option.Rel (List.Forall₂ fun s t => s.equiv t) s.allOf t.allOf
  | .oneOf => Option.Rel (List.Forall₂ fun s t => s.equiv t) s.oneOf t.oneOf
  | .prefixItems => Option.Rel (List.Forall₂ fun s t => s.equiv t) s.prefixItems t.prefixItems
  | .examples => List.Forall₂ (fun v w => v.equiv w) s.examples t.examples

theorem sameAt_empty (k : Keyword) : SameAt {} {} k := by
  cases k
  case anyOf | examples => exact .nil
  case properties => exact ⟨rfl, nofun⟩
  all_goals first | rfl | exact .none

/-- Nodes are equal if they are equal under each keyword and have equal unknown members. -/
theorem equiv_iff {s t : Schema} : s.equiv t ↔
    (∀ k, SameAt s t k) ∧ Members.Rel (fun v w => v.equiv w) s.extra t.extra := by
  cases s
  rw [equiv, Limits.equiv]
  simp only [Bool.and_eq_true, beq_iff_eq, equivEach_iff, optionEquiv_iff, equivItems_iff,
    equivMembers_iff, equivAdditionalProperties_iff, equivOption_iff, equivMapOption_iff,
    equivEachOption_iff, Json.equivElements_iff, Json.equivMembers_iff, and_assoc]
  constructor
  · rintro ⟨types, anyOf, minLength, maxLength, pattern, multipleOf, maximum, exclusiveMaximum,
      minimum, exclusiveMinimum, minItems, maxItems, format, items, length, properties, required,
      additionalProperties, not, const, contains, uniqueItems, deprecated, readOnly,
      patternProperties, additionalItems, allOf, oneOf, prefixItems, examples, count, extra⟩
    refine ⟨fun k => ?_, count, extra⟩
    cases k with
    | properties => exact ⟨length, properties⟩
    | _ => assumption
  · rintro ⟨same, extra⟩
    exact ⟨same .type, same .anyOf, same .minLength, same .maxLength, same .pattern,
      same .multipleOf, same .maximum, same .exclusiveMaximum, same .minimum,
      same .exclusiveMinimum, same .minItems, same .maxItems, same .format, same .items,
      (same .properties).length, (same .properties).found, same .required,
      same .additionalProperties, same .not, same .const, same .contains, same .uniqueItems,
      same .deprecated, same .readOnly, same .patternProperties, same .additionalItems,
      same .allOf, same .oneOf, same .prefixItems, same .examples, extra.length, extra.found⟩

end Schema

end StrictSchema
