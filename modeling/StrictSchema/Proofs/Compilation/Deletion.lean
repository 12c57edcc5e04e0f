import Mathlib.Data.List.Forall2
import StrictSchema.Proofs.Compilation.Supportable
import StrictSchema.Proofs.Schema.Parts

/-!
# Compilation and deleted parts

A schema is trimmed from another one if it arises by deleting properties, elements of tuples and
alternatives, anywhere and as many as one likes, but never all alternatives of a choice
(`Schema.TrimmedFrom`). Deletion takes away from what can be expressed and adds nothing to it, so a
schema from which one with a form is trimmed has a form too (`Supportable.of_trimmedFrom`).
-/

namespace StrictSchema

open List

namespace Schema

/-- The same name, and related values. -/
inductive SameName (P : Schema → Schema → Prop) : String × Schema → String × Schema → Prop where
  | intro {name : String} {c d : Schema} (h : P c d) : SameName P (name, c) (name, d)

/-- A related schema for all elements, or related schemas for some of the positions. -/
inductive ItemsTrimmed (P : Schema → Schema → Prop) : Items Schema → Items Schema → Prop where
  | single {c d : Schema} (h : P c d) : ItemsTrimmed P (.single c) (.single d)
  | tuple {cs ds : List Schema} (h : SublistForall₂ P cs ds) :
      ItemsTrimmed P (.tuple cs) (.tuple ds)

/-- The same answer, or related schemas. -/
inductive AdditionalRelated (P : Schema → Schema → Prop) :
    AdditionalProperties Schema → AdditionalProperties Schema → Prop where
  | allowed (yes : Bool) : AdditionalRelated P (.allowed yes) (.allowed yes)
  | schema {c d : Schema} (h : P c d) : AdditionalRelated P (.schema c) (.schema d)

/-- The first schema is what is left of the second one after properties, elements of tuples and
alternatives have been deleted in it and in the schemas under any of its keywords. A choice keeps an
alternative. -/
inductive TrimmedFrom : Schema → Schema → Prop where
  | intro {s : Schema} {anyOf : List Schema} {properties : List (String × Schema)}
      {items : Option (Items Schema)} {additional : Option (AdditionalProperties Schema)}
      {not contains additionalItems : Option Schema} {pattern : Option (List (String × Schema))}
      {allOf oneOf prefixItems : Option (List Schema)}
      (hanyOf : SublistForall₂ TrimmedFrom anyOf s.anyOf) (hchoice : s.anyOf ≠ [] → anyOf ≠ [])
      (hproperties : SublistForall₂ (SameName TrimmedFrom) properties s.properties)
      (hitems : Option.Rel (ItemsTrimmed TrimmedFrom) items s.items)
      (hadditional : Option.Rel (AdditionalRelated TrimmedFrom) additional s.additionalProperties)
      (hnot : Option.Rel TrimmedFrom not s.not)
      (hcontains : Option.Rel TrimmedFrom contains s.contains)
      (hpattern : Option.Rel (Forall₂ (SameName TrimmedFrom)) pattern s.patternProperties)
      (hadditionalItems : Option.Rel TrimmedFrom additionalItems s.additionalItems)
      (hallOf : Option.Rel (Forall₂ TrimmedFrom) allOf s.allOf)
      (honeOf : Option.Rel (Forall₂ TrimmedFrom) oneOf s.oneOf)
      (hprefixItems : Option.Rel (Forall₂ TrimmedFrom) prefixItems s.prefixItems) :
      TrimmedFrom { s with
        anyOf := anyOf, properties := properties, items := items
        additionalProperties := additional, not := not, contains := contains
        patternProperties := pattern, additionalItems := additionalItems, allOf := allOf
        oneOf := oneOf, prefixItems := prefixItems } s

theorem rel_self {α : Type} {P : α → α → Prop} {x : Option α} (h : ∀ a ∈ x, P a a) :
    Option.Rel P x x := by
  cases x with
  | none => exact .none
  | some a => exact .some (h a rfl)

theorem sublistForall₂_self {α : Type} {P : α → α → Prop} {xs : List α} (h : ∀ x ∈ xs, P x x) :
    SublistForall₂ P xs xs :=
  sublistForall₂_iff.2 ⟨xs, forall₂_same.2 h, .refl xs⟩

theorem sameName_self {P : Schema → Schema → Prop} {ps : List (String × Schema)}
    (h : ∀ c ∈ ps.map Prod.snd, P c c) : ∀ p ∈ ps, SameName P p p :=
  fun _ hp => .intro (h _ (mem_map_of_mem hp))

/-- Deleting nothing is trimming too. -/
theorem TrimmedFrom.refl (s : Schema) : s.TrimmedFrom s := by
  induction s using partInduction with
  | _ s ih =>
    have ih := eachPart_iff.2 ih
    have hitems : Option.Rel (ItemsTrimmed TrimmedFrom) s.items s.items := by
      have hparts := ih.items
      unfold itemSchemas at hparts
      refine rel_self fun a ha => ?_
      rw [Option.mem_def.1 ha] at hparts
      cases a with
      | single c => exact .single (hparts c (mem_singleton_self c))
      | tuple cs => exact .tuple (sublistForall₂_self hparts)
    have hadditional : Option.Rel (AdditionalRelated TrimmedFrom) s.additionalProperties
        s.additionalProperties := by
      have hparts := ih.additionalProperties
      unfold additionalSchemas at hparts
      refine rel_self fun a ha => ?_
      rw [Option.mem_def.1 ha] at hparts
      cases a with
      | allowed yes => exact .allowed yes
      | schema c => exact .schema (hparts c (mem_singleton_self c))
    have hpattern : Option.Rel (Forall₂ (SameName TrimmedFrom)) s.patternProperties
        s.patternProperties := by
      have hparts := ih.patternProperties
      unfold patternSchemas at hparts
      refine rel_self fun a ha => forall₂_same.2 ?_
      rw [Option.mem_def.1 ha] at hparts
      exact sameName_self hparts
    have hoption {c : Option Schema} (h : ∀ d ∈ c.toList, d.TrimmedFrom d) :
        Option.Rel TrimmedFrom c c :=
      rel_self fun d hd => h d (Option.mem_toList.2 hd)
    have hlist {cs : Option (List Schema)} (h : ∀ c ∈ cs.getD [], c.TrimmedFrom c) :
        Option.Rel (Forall₂ TrimmedFrom) cs cs := by
      refine rel_self fun a ha => forall₂_same.2 fun c hc => h c ?_
      rwa [Option.mem_def.1 ha]
    have h := intro (sublistForall₂_self ih.anyOf) id
      (sublistForall₂_self (sameName_self ih.properties)) hitems hadditional (hoption ih.not)
      (hoption ih.contains) hpattern (hoption ih.additionalItems) (hlist ih.allOf)
      (hlist ih.oneOf) (hlist ih.prefixItems)
    cases s
    exact h

end Schema

open Schema

theorem exists_mem_of_sublistForall₂ {α : Type} {P : α → α → Prop} {xs ys : List α}
    (h : SublistForall₂ P xs ys) {x : α} (hx : x ∈ xs) : ∃ y ∈ ys, P x y := by
  induction h with
  | nil => cases hx
  | cons hxy _ ih =>
    rcases mem_cons.1 hx with rfl | hx
    · exact ⟨_, mem_cons_self, hxy⟩
    · obtain ⟨y, hy, hxy⟩ := ih hx
      exact ⟨y, mem_cons_of_mem _ hy, hxy⟩
  | cons_right _ ih =>
    obtain ⟨y, hy, hxy⟩ := ih hx
    exact ⟨y, mem_cons_of_mem _ hy, hxy⟩

theorem eq_none_of_rel {α : Type} {P : α → α → Prop} {x y : Option α} (h : Option.Rel P x y)
    (hx : x = none) : y = none := by
  cases h with
  | some h => cases hx
  | none => rfl

namespace Schema.TrimmedFrom

variable {s t : Schema} (h : t.TrimmedFrom s)
include h

theorem types_eq : t.types = s.types := by
  cases h
  rfl

theorem anyOf_eq_nil (hs : s.anyOf = []) : t.anyOf = [] := by
  cases h with
  | intro hanyOf =>
    rw [hs] at hanyOf
    cases hanyOf
    rfl

theorem anyOf_ne_nil (hs : s.anyOf ≠ []) : t.anyOf ≠ [] := by
  cases h with
  | intro _ hchoice => exact hchoice hs

theorem exists_alternative {c : Schema} (hc : c ∈ t.anyOf) : ∃ d ∈ s.anyOf, c.TrimmedFrom d := by
  cases h with
  | intro hanyOf => exact exists_mem_of_sublistForall₂ hanyOf hc

theorem exists_property {c : Schema} (hc : c ∈ t.propertySchemas) :
    ∃ d ∈ s.propertySchemas, c.TrimmedFrom d := by
  obtain ⟨p, hp, rfl⟩ := mem_map.1 hc
  cases h with
  | intro _ _ hproperties =>
    obtain ⟨q, hq, hpq⟩ := exists_mem_of_sublistForall₂ hproperties hp
    cases hpq with
    | intro hcd => exact ⟨_, mem_map_of_mem hq, hcd⟩

theorem exists_item {c : Schema} (hc : c ∈ t.itemSchemas) :
    ∃ d ∈ s.itemSchemas, c.TrimmedFrom d := by
  cases h with
  | @intro _ _ _ items _ _ _ _ _ _ _ _ _ _ _ hitems =>
    unfold itemSchemas at hc ⊢
    generalize s.items = sourceItems at hitems
    cases hitems with
    | none => cases hc
    | some h =>
      cases h with
      | single hcd =>
        obtain rfl := mem_singleton.1 hc
        exact ⟨_, mem_cons_self, hcd⟩
      | tuple hcs => exact exists_mem_of_sublistForall₂ hcs hc

/-- What rules a node out is not deleted: its forbidden keywords are still there, whatever has been
deleted below them. -/
theorem isExpressible (ht : t.IsExpressible) : s.IsExpressible := by
  obtain ⟨htypes, hforbidden, hformat⟩ := ht
  cases h with
  | intro _ _ _ _ _ _ hcontains hpattern hadditionalItems hallOf honeOf hprefixItems =>
    refine ⟨htypes, ?_, hformat⟩
    exact {
      const := hforbidden.const
      contains := eq_none_of_rel hcontains hforbidden.contains
      uniqueItems := hforbidden.uniqueItems
      deprecated := hforbidden.deprecated
      readOnly := hforbidden.readOnly
      patternProperties := eq_none_of_rel hpattern hforbidden.patternProperties
      additionalItems := eq_none_of_rel hadditionalItems hforbidden.additionalItems
      allOf := eq_none_of_rel hallOf hforbidden.allOf
      oneOf := eq_none_of_rel honeOf hforbidden.oneOf
      prefixItems := eq_none_of_rel hprefixItems hforbidden.prefixItems }

end Schema.TrimmedFrom

theorem Supportable.of_trimmedFrom {s t : Schema} (h : t.TrimmedFrom s) (ht : Supportable t) :
    Supportable s := by
  induction s using childInduction generalizing t with
  | _ s ih =>
    by_cases hs : s.anyOf = []
    · obtain ⟨hexpressible, hobject, harray⟩ := (supportable_node_iff (h.anyOf_eq_nil hs)).1 ht
      rw [h.types_eq] at hobject harray
      refine (supportable_node_iff hs).2 ⟨h.isExpressible hexpressible, ?_, ?_⟩
      · intro htypes
        obtain ⟨c, hc, hsome⟩ := hobject htypes
        obtain ⟨d, hd, hcd⟩ := h.exists_property hc
        exact ⟨d, hd, ih d (.of_mem_propertySchemas hd) hcd hsome⟩
      · intro htypes
        obtain ⟨c, hc, hsome⟩ := harray htypes
        obtain ⟨d, hd, hcd⟩ := h.exists_item hc
        exact ⟨d, hd, ih d (.of_mem_itemSchemas hd) hcd hsome⟩
    · obtain ⟨c, hc, hsome⟩ := (supportable_choice_iff (h.anyOf_ne_nil hs)).1 ht
      obtain ⟨d, hd, hcd⟩ := h.exists_alternative hc
      exact (supportable_choice_iff hs).2 ⟨d, hd, ih d (.alternative hd) hcd hsome⟩

/-- Deleting properties, elements of tuples and alternatives never gives a schema a form. -/
theorem isSome_compile_of_trimmedFrom {s t : Schema} (h : t.TrimmedFrom s)
    (ht : (compile t).isSome) : (compile s).isSome := by
  rw [isSome_compile_iff] at ht ⊢
  exact ht.of_trimmedFrom h

/-- An object with a name and a row of two columns, the second of which offers a choice. -/
def namedRow : Schema :=
  { types := .single "object"
    properties := [("name", ofType "string"), ("row", tupleOf [ofType "number",
      ofAlternatives [{ uniqueItems := true }, ofType "string"]])] }

/-- What is left of `namedRow` without the name, the first column and one alternative. -/
def trimmedRow : Schema :=
  { types := .single "object", properties := [("row", tupleOf [ofAlternatives [ofType "string"]])] }

theorem trimmedRow_trimmedFrom : trimmedRow.TrimmedFrom namedRow := by
  have hchoice : (ofAlternatives [ofType "string"]).TrimmedFrom
      (ofAlternatives [{ uniqueItems := true }, ofType "string"]) := by
    refine .intro (s := ofAlternatives [{ uniqueItems := true }, ofType "string"]) ?_ ?_ .nil .none
      .none .none .none .none .none .none .none .none
    · exact .cons_right (.cons (.refl _) .nil)
    · exact fun _ => cons_ne_nil _ _
  have hrow : (tupleOf [ofAlternatives [ofType "string"]]).TrimmedFrom
      (tupleOf [ofType "number", ofAlternatives [{ uniqueItems := true }, ofType "string"]]) := by
    refine .intro (s := tupleOf [ofType "number",
      ofAlternatives [{ uniqueItems := true }, ofType "string"]]) .nil id .nil ?_ .none .none .none
      .none .none .none .none .none
    exact .some (.tuple (.cons_right (.cons hchoice .nil)))
  refine .intro (s := namedRow) .nil id ?_ .none .none .none .none .none .none .none .none .none
  exact .cons_right (.cons (.intro hrow) .nil)

theorem isSome_compile_namedRow :
    trimmedRow.TrimmedFrom namedRow ∧ (compile trimmedRow).isSome ∧ (compile namedRow).isSome := by
  have hsome : (compile trimmedRow).isSome := by decide
  exact ⟨trimmedRow_trimmedFrom, hsome,
    isSome_compile_of_trimmedFrom trimmedRow_trimmedFrom hsome⟩

end StrictSchema
