import Mathlib.Data.List.Forall2
import StrictSchema.Proofs.Compilation.Dialect
import StrictSchema.Proofs.Compilation.Forms

/-!
# Where the nodes of a form come from

Compilation keeps the children that have a form, in order, so the children of a form stand beside
the kept children of the source (`Kept`), and from the two roots down each node of a form stands
beside a node of the source (`ComesFrom`). It is the form of its source, with null admitted or not
(`FormOf`, `ComesFrom.formOf`). The only nodes without a source are the null alternatives that were
added (`eq_null_or_comesFrom`).
-/

namespace StrictSchema

/-! ## Lists of what is kept -/

section Lists

variable {α β : Type} {f : α → Option β} {xs : List α}

theorem forall₂_filter_filterMap (f : α → Option β) (xs : List α) :
    List.Forall₂ (fun x y => f x = some y) (xs.filter fun x => (f x).isSome) (xs.filterMap f) := by
  induction xs with
  | nil => exact .nil
  | cons x xs ih =>
    rw [List.filter_cons]
    cases hx : f x with
    | none =>
      rw [List.filterMap_cons_none hx]
      exact ih
    | some y =>
      rw [List.filterMap_cons_some hx]
      exact .cons hx ih

/-- What is added at the end has nothing beside it. -/
theorem zip_filter_filterMap_append (f : α → Option β) (xs : List α) (added : List β) :
    (xs.filter fun x => (f x).isSome).zip (xs.filterMap f ++ added) =
      (xs.filter fun x => (f x).isSome).zip (xs.filterMap f) := by
  let kept := xs.filter fun x => (f x).isSome
  calc kept.zip (xs.filterMap f ++ added)
      = (kept ++ []).zip (xs.filterMap f ++ added) := by rw [List.append_nil]
    _ = kept.zip (xs.filterMap f) ++ [].zip added :=
        List.zip_append (forall₂_filter_filterMap f xs).length_eq
    _ = kept.zip (xs.filterMap f) := by rw [List.zip_nil_left, List.append_nil]

theorem eq_some_of_mem_zip {x : α} {y : β}
    (h : (x, y) ∈ (xs.filter fun x => (f x).isSome).zip (xs.filterMap f)) : f x = some y :=
  (List.forall₂_iff_zip.1 (forall₂_filter_filterMap f xs)).2 h

theorem exists_mem_zip {y : β} (h : y ∈ xs.filterMap f) :
    ∃ x, (x, y) ∈ (xs.filter fun x => (f x).isSome).zip (xs.filterMap f) := by
  have aligned := (forall₂_filter_filterMap f xs).length_eq
  rw [← List.map_snd_zip (Nat.le_of_eq aligned.symm)] at h
  obtain ⟨⟨x, _⟩, mem, rfl⟩ := List.mem_map.1 h
  exact ⟨x, mem⟩

end Lists

/-! ## Nodes beside nodes -/

open Schema

/-- The schemas of a list that have a form. -/
def withForm (ss : List Schema) : List Schema := ss.filter fun s => (compile s).isSome

/-- The properties that have a form. -/
def propertiesWithForm (ps : List (String × Schema)) : List (String × Schema) :=
  ps.filter fun p => (compile p.2).isSome

/-- The child `c'` of the node `c` of a form stands beside the child `d'` of the source `d` of `c`:
the two have the same place among the children that are kept. -/
inductive Kept (d c : Schema) : Schema → Schema → Prop where
  | alternative {d' c' : Schema} (h : (d', c') ∈ (withForm d.anyOf).zip c.anyOf) : Kept d c d' c'
  | property {p q : String × Schema}
      (h : (p, q) ∈ (propertiesWithForm d.properties).zip c.properties) : Kept d c p.2 q.2
  | item {d' c' : Schema} (hd : d.items = some (.single d')) (hc : c.items = some (.single c')) :
      Kept d c d' c'
  | element {ds cs : List Schema} {d' c' : Schema} (hds : d.items = some (.tuple ds))
      (hcs : c.items = some (.tuple cs)) (h : (d', c') ∈ (withForm ds).zip cs) : Kept d c d' c'

/-- The node `c` of the form `r` stands beside the node `d` of the source `s`. -/
def ComesFrom (s r d c : Schema) : Prop :=
  Relation.ReflTransGen (fun x y : Schema × Schema => Kept x.1 x.2 y.1 y.2) (s, r) (d, c)

/-! ## Forms with null admitted or not -/

/-- `c` is the form of `d`, or this form with null admitted. -/
def FormOf (d c : Schema) : Prop := ∃ e, compile d = some e ∧ (c = e ∨ c = e.withNull)

/-- A choice keeps its alternatives that have a form, with null behind them perhaps. Any other node
is rebuilt, and null among its types does not matter for its children, of which an object has some.
-/
theorem FormOf.cases {d c : Schema} (h : FormOf d c) :
    (d.anyOf ≠ [] ∧ ∃ added, (∀ a ∈ added, a = ofType "null") ∧
      c = .ofAlternatives (d.anyOf.filterMap compile ++ added)) ∨
    d.anyOf = [] ∧ ∃ types admitted : TypeTags,
      admitted.contains "object" = types.contains "object" ∧
      (types.contains "object" → d.formProperties types ≠ []) ∧
      c = { d.rebuild types (d.formProperties types) (d.formItems types) with
        types := admitted } := by
  obtain ⟨e, form, hc⟩ := h
  by_cases choice : d.anyOf = []
  · obtain ⟨types, ht, object, -, rfl⟩ := (compile_node_eq_some_iff choice).1 form
    have strict := (TypeTags.resolve_eq_some (strictTypes_eq_ok_iff.1 ht).1).1
    rcases hc with rfl | rfl
    · exact .inr ⟨choice, types, types, rfl, object, rfl⟩
    · exact .inr ⟨choice, types, types.withNull, strict.contains_withNull (by decide), object,
        withNull_node rfl⟩
  · obtain ⟨kept, rfl⟩ := (compile_choice_eq_some_iff choice).1 form
    rcases hc with rfl | rfl
    · exact .inl ⟨choice, [], nofun, by rw [List.append_nil]⟩
    · rw [withNull_choice kept]
      split_ifs
      · exact .inl ⟨choice, [], nofun, by rw [List.append_nil]⟩
      · exact .inl ⟨choice, [ofType "null"], fun a => List.mem_singleton.1, rfl⟩

section FormOf

variable {d c : Schema} (h : FormOf d c)
include h

theorem FormOf.anyOf : ∃ added, c.anyOf = d.anyOf.filterMap compile ++ added ∧
    ∀ a ∈ added, a = ofType "null" := by
  obtain ⟨-, added, null, rfl⟩ | ⟨node, types, admitted, -, -, rfl⟩ := h.cases
  · exact ⟨added, rfl, null⟩
  · rw [node]
    exact ⟨[], rfl, nofun⟩

/-- Only the form of an object has properties. -/
theorem FormOf.properties : c.properties = if c.types.contains "object"
    then d.properties.filterMap (propertyForm d.required) else [] := by
  obtain ⟨-, added, -, rfl⟩ | ⟨-, types, admitted, same, -, rfl⟩ := h.cases
  · rfl
  · show d.formProperties types = if admitted.contains "object" then _ else _
    rw [same]
    rfl

theorem FormOf.required : c.required = Members.names c.properties := by
  obtain ⟨-, added, -, rfl⟩ | ⟨-, types, admitted, -, -, rfl⟩ := h.cases
  · rfl
  · rfl

theorem FormOf.items : c.items = none ∨ c.items = itemsForm d.items := by
  obtain ⟨-, added, -, rfl⟩ | ⟨-, types, admitted, -, -, rfl⟩ := h.cases
  · exact .inl rfl
  · by_cases array : types.contains "array"
    · exact .inr (if_pos array)
    · exact .inl (if_neg array)

end FormOf

theorem formOf_of_propertyForm {required : List String} {p q : String × Schema}
    (h : propertyForm required p = some q) : FormOf p.2 q.2 := by
  obtain ⟨e, form, rfl⟩ := Option.map_eq_some_iff.1 h
  refine ⟨e, form, ?_⟩
  dsimp only
  split_ifs
  · exact .inl rfl
  · exact .inr rfl

theorem propertiesWithForm_eq (required : List String) (ps : List (String × Schema)) :
    propertiesWithForm ps = ps.filter fun p => (propertyForm required p).isSome := by
  refine congrArg (List.filter · ps) (funext fun p => ?_)
  rw [propertyForm, Option.isSome_map]

/-- What stands beside a child is its form again. -/
theorem FormOf.of_kept {d c d' c' : Schema} (h : FormOf d c) (kept : Kept d c d' c') :
    FormOf d' c' := by
  cases kept with
  | alternative mem =>
    obtain ⟨added, anyOf, -⟩ := h.anyOf
    rw [anyOf, withForm, zip_filter_filterMap_append] at mem
    exact ⟨c', eq_some_of_mem_zip mem, .inl rfl⟩
  | @property p q mem =>
    rw [h.properties] at mem
    split_ifs at mem
    · rw [propertiesWithForm_eq d.required] at mem
      exact formOf_of_propertyForm (eq_some_of_mem_zip mem)
    · rw [List.zip_nil_right] at mem
      cases mem
  | item hd hc =>
    rcases h.items with none | form
    · rw [none] at hc
      cases hc
    · obtain ⟨d'', hd'', compiled⟩ := itemsForm_eq_single_iff.1 (form.symm.trans hc)
      rw [hd] at hd''
      cases hd''
      exact ⟨c', compiled, .inl rfl⟩
  | element hds hcs mem =>
    rcases h.items with none | form
    · rw [none] at hcs
      cases hcs
    · obtain ⟨-, ds', hds', rfl⟩ := itemsForm_eq_tuple_iff.1 (form.symm.trans hcs)
      rw [hds] at hds'
      cases hds'
      exact ⟨c', eq_some_of_mem_zip mem, .inl rfl⟩

/-- A child of a form stands beside a child of the source, unless it is the null that was added. -/
theorem FormOf.exists_kept {d c c' : Schema} (h : FormOf d c) (hc : c.IsChild c') :
    c' = ofType "null" ∨ ∃ d', Kept d c d' c' := by
  cases hc with
  | alternative mem =>
    obtain ⟨added, anyOf, null⟩ := h.anyOf
    rw [anyOf] at mem
    rcases List.mem_append.1 mem with kept | new
    · obtain ⟨d', beside⟩ := exists_mem_zip kept
      refine .inr ⟨d', .alternative ?_⟩
      rwa [anyOf, withForm, zip_filter_filterMap_append]
    · exact .inl (null c' new)
  | @property name _ mem =>
    have form := h.properties
    split_ifs at form
    · obtain ⟨p, beside⟩ := exists_mem_zip (form ▸ mem)
      refine .inr ⟨p.2, .property (q := (name, c')) ?_⟩
      rwa [form, propertiesWithForm_eq d.required]
    · rw [form] at mem
      cases mem
  | item hc =>
    rcases h.items with none | form
    · rw [none] at hc
      cases hc
    · obtain ⟨d', hd, -⟩ := itemsForm_eq_single_iff.1 (form.symm.trans hc)
      exact .inr ⟨d', .item hd hc⟩
  | element hcs mem =>
    rcases h.items with none | form
    · rw [none] at hcs
      cases hcs
    · obtain ⟨-, ds, hds, rfl⟩ := itemsForm_eq_tuple_iff.1 (form.symm.trans hcs)
      obtain ⟨d', beside⟩ := exists_mem_zip mem
      exact .inr ⟨d', .element hds hcs beside⟩

/-! ## From the roots down -/

section Roots

variable {s r c : Schema} (h : compile s = some r)
include h

/-- A node of a form is the form of the node that it comes from. -/
theorem ComesFrom.formOf {d : Schema} (hc : ComesFrom s r d c) : FormOf d c := by
  suffices ∀ x : Schema × Schema,
      Relation.ReflTransGen (fun x y => Kept x.1 x.2 y.1 y.2) (s, r) x → FormOf x.1 x.2 from
    this (d, c) hc
  intro x hx
  induction hx with
  | refl => exact ⟨r, h, .inl rfl⟩
  | tail _ kept ih => exact ih.of_kept kept

/-- All nodes of a form come from somewhere, except the null alternatives that were added. -/
theorem eq_null_or_comesFrom (hc : r.IsNode c) : c = ofType "null" ∨ ∃ d, ComesFrom s r d c := by
  induction hc with
  | refl => exact .inr ⟨s, .refl⟩
  | tail _ child ih =>
    rcases ih with rfl | ⟨d, hd⟩
    · cases child with
      | alternative mem => cases mem
      | property mem => cases mem
      | item item => cases item
      | element tuple _ => cases tuple
    · rcases (hd.formOf h).exists_kept child with null | ⟨d', kept⟩
      · exact .inl null
      · exact .inr ⟨d', hd.tail kept⟩

end Roots

end StrictSchema
