import Mathlib.Tactic.SplitIfs
import StrictSchema.Proofs.Compilation.Paths
import StrictSchema.Proofs.Compilation.Types

/-!
# The form of a node from the forms of its children

`compile_choice` and `compile_node_eq_some_iff` say what the form of a node is in terms of the forms
of its children and of nothing else below it: the alternatives that have a form; the properties that
have one, with null admitted unless they are required (`propertyForm`); and the items, if all that
is left of them is not nothing (`itemsForm`). Which children these are is said by `Schema.Uses`. A
node that has a form was compiled without prunings exactly if the children it uses were
(`prunings_eq_nil_iff`).
-/

namespace StrictSchema

open Traced

/-- The property of the form of a node that a property of the node becomes, if it has a form. -/
def propertyForm (required : List String) (p : String × Schema) : Option (String × Schema) :=
  (compile p.2).map fun c => (p.1, if required.contains p.1 then c else c.withNull)

/-- What becomes of the items of an array, if anything is left. -/
def itemsForm : Option (Items Schema) → Option (Items Schema)
  | none => none
  | some (.single c) => (compile c).map .single
  | some (.tuple cs) =>
    if (cs.filterMap compile).isEmpty then none else some (.tuple (cs.filterMap compile))

namespace Schema

/-- The properties of the form of a node with the given types. -/
def formProperties (s : Schema) (types : TypeTags) : List (String × Schema) :=
  if types.contains "object" then s.properties.filterMap (propertyForm s.required) else []

/-- The items of the form of a node with the given types. -/
def formItems (s : Schema) (types : TypeTags) : Option (Items Schema) :=
  if types.contains "array" then itemsForm s.items else none

/-- The form of `s` depends on that of its child `c`: an alternative, or, in a node without
alternatives, a property of an object or an item of an array. -/
inductive Uses (s : Schema) : Schema → Prop where
  | alternative {c : Schema} (hc : c ∈ s.anyOf) : Uses s c
  | property {name : String} {c : Schema} (hnode : s.anyOf = [])
      (hobject : s.types.contains "object") (hc : (name, c) ∈ s.properties) : Uses s c
  | item {c : Schema} (hnode : s.anyOf = []) (harray : s.types.contains "array")
      (hc : s.items = some (.single c)) : Uses s c
  | element {cs : List Schema} {c : Schema} (hnode : s.anyOf = [])
      (harray : s.types.contains "array") (hcs : s.items = some (.tuple cs)) (hc : c ∈ cs) :
      Uses s c

theorem Uses.isChild {s c : Schema} (h : Uses s c) : IsChild s c := by
  cases h with
  | alternative hc => exact .alternative hc
  | property _ _ hc => exact .property hc
  | item _ _ hc => exact .item hc
  | element _ _ hcs hc => exact .element hcs hc

theorem forall_uses_choice {s : Schema} (h : s.anyOf ≠ []) {P : Schema → Prop} :
    (∀ c, Uses s c → P c) ↔ ∀ c ∈ s.anyOf, P c := by
  constructor
  · intro hall c hc
    exact hall c (.alternative hc)
  · intro hall c hc
    cases hc with
    | alternative hc => exact hall c hc
    | property hnode _ _ => exact absurd hnode h
    | item hnode _ _ => exact absurd hnode h
    | element hnode _ _ _ => exact absurd hnode h

theorem forall_uses_node {s : Schema} (h : s.anyOf = []) {P : Schema → Prop} :
    (∀ c, Uses s c → P c) ↔ (s.types.contains "object" → ∀ p ∈ s.properties, P p.2) ∧
      (s.types.contains "array" → (∀ c, s.items = some (.single c) → P c) ∧
        ∀ cs, s.items = some (.tuple cs) → ∀ c ∈ cs, P c) := by
  constructor
  · intro hall
    exact ⟨fun hobject p hp => hall p.2 (.property h hobject hp),
      fun harray => ⟨fun c hc => hall c (.item h harray hc),
        fun cs hcs c hc => hall c (.element h harray hcs hc)⟩⟩
  · rintro ⟨hproperties, hitems⟩ c hc
    cases hc with
    | alternative hc => exact absurd (h ▸ hc) List.not_mem_nil
    | property _ hobject hc => exact hproperties hobject _ hc
    | item _ harray hc => exact (hitems harray).1 c hc
    | element _ harray hcs hc => exact (hitems harray).2 _ hcs c hc

/-- The types of a node are settled by its type names, its forbidden keywords and its format. -/
theorem strictTypes_eq_ok_iff {s : Schema} {types : TypeTags} :
    s.strictTypes = .ok types ↔ s.types.resolve = some types ∧ s.forbidden? = none ∧
      ∀ format, s.usedFormat = some format → format ∈ supportedFormats := by
  unfold strictTypes
  cases s.types.resolve with
  | none => simp
  | some resolved =>
    cases s.forbidden? with
    | some keyword => simp
    | none =>
      cases s.usedFormat with
      | none => simp
      | some format => by_cases h : format ∈ supportedFormats <;> simp [h]

section StrictTypes

variable {s : Schema} {types : TypeTags} (ht : s.strictTypes = .ok types)
include ht

theorem contains_object_of_strictTypes : types.contains "object" = s.types.contains "object" :=
  TypeTags.contains_of_resolve (strictTypes_eq_ok_iff.1 ht).1 (by decide)

theorem contains_array_of_strictTypes : types.contains "array" = s.types.contains "array" :=
  TypeTags.contains_of_resolve (strictTypes_eq_ok_iff.1 ht).1 (by decide)

end StrictTypes

end Schema

/-! ## What the form is made of -/

theorem Schema.mem_formProperties {s : Schema} {types : TypeTags} (ht : s.strictTypes = .ok types)
    {name : String} {c : Schema} :
    (name, c) ∈ s.formProperties types ↔ s.types.contains "object" ∧
      ∃ d e, (name, d) ∈ s.properties ∧ compile d = some e ∧
        (if s.required.contains name then e else e.withNull) = c := by
  rw [formProperties, contains_object_of_strictTypes ht]
  by_cases hobject : s.types.contains "object"
  · rw [if_pos hobject, and_iff_right hobject]
    simp only [List.mem_filterMap, propertyForm, Option.map_eq_some_iff, Prod.mk.injEq, Prod.exists]
    constructor
    · rintro ⟨_, d, hd, e, he, rfl, rfl⟩
      exact ⟨d, e, hd, he, rfl⟩
    · rintro ⟨d, e, hd, he, rfl⟩
      exact ⟨name, d, hd, e, he, rfl, rfl⟩
  · simp [hobject]

theorem itemsForm_eq_single_iff {items : Option (Items Schema)} {c : Schema} :
    itemsForm items = some (.single c) ↔
      ∃ d, items = some (.single d) ∧ compile d = some c := by
  rcases items with _ | d | ds
  · simp [itemsForm]
  · simp [itemsForm]
  · simp [itemsForm]

theorem itemsForm_eq_tuple_iff {items : Option (Items Schema)} {cs : List Schema} :
    itemsForm items = some (.tuple cs) ↔
      cs ≠ [] ∧ ∃ ds, items = some (.tuple ds) ∧ ds.filterMap compile = cs := by
  rcases items with _ | d | ds
  · simp [itemsForm]
  · simp [itemsForm]
  · simp only [itemsForm, Option.ite_none_left_eq_some, List.isEmpty_iff, Option.some.injEq,
      Items.tuple.injEq, exists_eq_left']
    constructor
    · rintro ⟨hne, rfl⟩
      exact ⟨hne, rfl⟩
    · rintro ⟨hne, rfl⟩
      exact ⟨hne, rfl⟩

/-! ## Lists of children -/

theorem value_collect_indexed (step : Nat → Step) (path : Path) (index : Nat) (ss : List Schema) :
    (collect ((ss.zipIdx index).map fun x => compileAt (path ++ [step x.2]) x.1)).value =
      ss.filterMap compile := by
  have hcompile : (value ∘ fun x : Schema × Nat => compileAt (path ++ [step x.2]) x.1) =
      compile ∘ Prod.fst := by
    funext x
    exact compileAt_value _ x.1
  rw [collect, List.filterMap_map, hcompile, ← List.filterMap_map, List.zipIdx_map_fst]

theorem prunings_collect_indexed (step : Nat → Step) (path : Path) (index : Nat)
    (ss : List Schema) :
    (collect ((ss.zipIdx index).map fun x => compileAt (path ++ [step x.2]) x.1)).prunings = [] ↔
      ∀ s ∈ ss, prunings s = [] := by
  have hfst : (∀ s ∈ (ss.zipIdx index).map Prod.fst, prunings s = []) ↔
      ∀ x ∈ ss.zipIdx index, prunings x.1 = [] := List.forall_mem_map
  rw [List.zipIdx_map_fst] at hfst
  simp only [collect, List.flatMap_eq_nil_iff, List.forall_mem_map, compileAt_prunings,
    List.map_eq_nil_iff, hfst]

theorem value_compileProperties (path : Path) (required : List String)
    (ps : List (String × Schema)) :
    (compileProperties path required ps).value = ps.filterMap (propertyForm required) := by
  rw [compileProperties_eq, collect, List.filterMap_map]
  refine congrArg (ps.filterMap ·) (funext fun p => ?_)
  simp only [Function.comp_apply, asProperty, compileAt_value, propertyForm]

theorem prunings_compileProperties (path : Path) (required : List String)
    (ps : List (String × Schema)) :
    (compileProperties path required ps).prunings = [] ↔ ∀ p ∈ ps, prunings p.2 = [] := by
  simp only [compileProperties_eq, collect, List.flatMap_eq_nil_iff, List.forall_mem_map,
    asProperty, compileAt_prunings, List.map_eq_nil_iff]

theorem value_compileItems (path : Path) (items : Option (Items Schema)) :
    (compileItems path items).value.toOption = itemsForm items := by
  rcases items with _ | c | cs
  · rw [compileItems]
    rfl
  · rw [compileItems, assembleItem, itemsForm, compileAt_value]
    cases compile c <;> rfl
  · rw [compileItems, assembleTuple, compileElements_eq, value_collect_indexed, itemsForm]
    split_ifs <;> rfl

theorem prunings_compileItems (path : Path) (items : Option (Items Schema)) :
    (compileItems path items).prunings = [] ↔
      (∀ c, items = some (.single c) → prunings c = []) ∧
        ∀ cs, items = some (.tuple cs) → ∀ c ∈ cs, prunings c = [] := by
  rcases items with _ | c | cs
  · simp [compileItems]
  · have : (assembleItem (compileAt (path ++ [.item]) c)).prunings =
        (compileAt (path ++ [.item]) c).prunings := by
      unfold assembleItem
      split <;> rfl
    simp [compileItems, this, compileAt_prunings]
  · have : (assembleTuple (compileElements path 0 cs)).prunings =
        (compileElements path 0 cs).prunings := by
      unfold assembleTuple
      split <;> rfl
    rw [compileItems, this, compileElements_eq, prunings_collect_indexed]
    simp

/-! ## Single nodes -/

section Node

variable {path : Path} {s r : Schema} {types : TypeTags}
  {properties : Traced (List (String × Schema))} {items : Traced (Except Reason (Items Schema))}

theorem withItems_value (kept : Traced (List (String × Schema))) :
    (withItems path s types kept items).value =
      items.value.toOption.map fun i => s.rebuild types kept.value (some i) := by
  rcases items with ⟨_ | _, _⟩ <;> rfl

theorem withItems_prunings (kept : Traced (List (String × Schema))) :
    (withItems path s types kept items).prunings = [] ↔
      items.value.toOption.isSome ∧ kept.prunings = [] ∧ items.prunings = [] := by
  rcases items with ⟨_ | _, _⟩ <;> simp [withItems, followedBy, drop, Except.toOption]

theorem assembleNode_value_eq_some_iff :
    (assembleNode path s properties items).value = some r ↔ ∃ types, s.strictTypes = .ok types ∧
      (types.contains "object" → properties.value ≠ []) ∧
      (types.contains "array" → items.value.toOption ≠ none) ∧
      r = s.rebuild types (if types.contains "object" then properties.value else [])
        (if types.contains "array" then items.value.toOption else none) := by
  unfold assembleNode
  cases s.strictTypes with
  | error reason => simp
  | ok types =>
    simp only [Except.ok.injEq, exists_eq_left']
    have hvalue : (if types.contains "object" then properties else ⟨[], []⟩).value =
        if types.contains "object" then properties.value else [] := apply_ite value _ _ _
    -- only an object without properties and an array without items have no form
    by_cases hempty : types.contains "object" ∧ properties.value = []
    · simp [hempty, drop]
    · have hproperties : types.contains "object" → properties.value ≠ [] :=
        fun hobject hnil => hempty ⟨hobject, hnil⟩
      rw [if_neg (by rw [hvalue]; split_ifs <;> simp_all), apply_ite value,
        and_iff_right hproperties]
      simp only [hvalue, withItems_value, eq_comm (a := r)]
      by_cases harray : types.contains "array"
      · cases items.value.toOption <;> simp [harray]
      · simp [harray]

theorem assembleNode_prunings_eq_nil_iff (ht : s.strictTypes = .ok types) :
    (assembleNode path s properties items).prunings = [] ↔
      (assembleNode path s properties items).value.isSome ∧
        (types.contains "object" → properties.prunings = []) ∧
        (types.contains "array" → items.prunings = []) := by
  unfold assembleNode
  rw [ht]
  dsimp only
  by_cases hempty : types.contains "object" ∧ properties.value = []
  · simp [hempty, drop]
  · have hkept : (if types.contains "object" then properties else ⟨[], []⟩).prunings = [] ↔
        (types.contains "object" → properties.prunings = []) := by
      split_ifs with hobject <;> simp [hobject]
    rw [if_neg (by split_ifs <;> simp_all)]
    by_cases harray : types.contains "array"
    · rw [if_pos harray, withItems_prunings, withItems_value, Option.isSome_map, hkept]
      simp [harray]
    · rw [if_neg harray]
      simp [harray, hkept]

end Node

/-! ## Compilation -/

section Compilation

variable {s r : Schema}

theorem compile_choice (h : s.anyOf ≠ []) :
    compile s = if s.anyOf.filterMap compile = [] then none
      else some (.ofAlternatives (s.anyOf.filterMap compile)) := by
  have hanyOf : ¬ s.anyOf.isEmpty := by rwa [List.isEmpty_iff]
  have hkept : (compileAlternatives [] 0 s.anyOf).value = s.anyOf.filterMap compile := by
    rw [compileAlternatives_eq, value_collect_indexed]
  unfold compile
  rw [compileAt_eq, if_neg hanyOf, assembleChoice, hkept]
  simp only [List.isEmpty_iff]
  exact apply_ite value _ _ _

theorem compile_choice_eq_some_iff (h : s.anyOf ≠ []) :
    compile s = some r ↔
      s.anyOf.filterMap compile ≠ [] ∧ r = .ofAlternatives (s.anyOf.filterMap compile) := by
  rw [compile_choice h]
  split_ifs with hkept
  · simp [hkept]
  · simp [hkept, eq_comm]

theorem compile_node_eq_some_iff (h : s.anyOf = []) :
    compile s = some r ↔ ∃ types, s.strictTypes = .ok types ∧
      (types.contains "object" → s.formProperties types ≠ []) ∧
      (types.contains "array" → s.formItems types ≠ none) ∧
      r = s.rebuild types (s.formProperties types) (s.formItems types) := by
  unfold compile
  rw [compileAt_eq, if_pos (List.isEmpty_iff.2 h), assembleNode_value_eq_some_iff,
    value_compileProperties, value_compileItems]
  refine exists_congr fun types => and_congr_right fun _ => and_congr ?_ (and_congr ?_ Iff.rfl)
  · refine imp_congr_right fun hobject => ?_
    rw [Schema.formProperties, if_pos hobject]
  · refine imp_congr_right fun harray => ?_
    rw [Schema.formItems, if_pos harray]

open Schema in
/-- A child of a form is the form of a child, with null admitted or not. -/
theorem exists_of_isChild_form {c : Schema} (h : compile s = some r) (hc : r.IsChild c) :
    ∃ d e, s.IsChild d ∧ compile d = some e ∧ (c = e ∨ c = e.withNull) := by
  by_cases hs : s.anyOf = []
  · obtain ⟨types, ht, -, -, rfl⟩ := (compile_node_eq_some_iff hs).1 h
    cases hc with
    | alternative hc => cases hc
    | property hc =>
      obtain ⟨-, d, e, hd, he, rfl⟩ := (mem_formProperties ht).1 hc
      refine ⟨d, e, .property hd, he, ?_⟩
      split
      · exact .inl rfl
      · exact .inr rfl
    | item hc =>
      obtain ⟨-, hc⟩ := Option.ite_none_right_eq_some.1 hc
      obtain ⟨d, hd, hc⟩ := itemsForm_eq_single_iff.1 hc
      exact ⟨d, c, .item hd, hc, .inl rfl⟩
    | element hcs hc =>
      obtain ⟨-, hcs⟩ := Option.ite_none_right_eq_some.1 hcs
      obtain ⟨-, ds, hds, rfl⟩ := itemsForm_eq_tuple_iff.1 hcs
      obtain ⟨d, hd, hc⟩ := List.mem_filterMap.1 hc
      exact ⟨d, c, .element hds hd, hc, .inl rfl⟩
  · obtain ⟨-, rfl⟩ := (compile_choice_eq_some_iff hs).1 h
    cases hc with
    | alternative hc =>
      obtain ⟨d, hd, hc⟩ := List.mem_filterMap.1 hc
      exact ⟨d, c, .alternative hd, hc, .inl rfl⟩
    | property hc => cases hc
    | item hc => cases hc
    | element hcs _ => cases hcs

/-- Nothing is pruned at or below a node exactly if it has a form and nothing is pruned at or below
the children that it uses. -/
theorem prunings_eq_nil_iff :
    prunings s = [] ↔ (compile s).isSome ∧ ∀ c, s.Uses c → prunings c = [] := by
  show (compileAt [] s).prunings = [] ↔ (compileAt [] s).value.isSome ∧ _
  rw [compileAt_eq]
  by_cases h : s.anyOf = []
  · rw [if_pos (List.isEmpty_iff.2 h), Schema.forall_uses_node h]
    cases ht : s.strictTypes with
    | error reason => simp [assembleNode, ht]
    | ok types =>
      rw [assembleNode_prunings_eq_nil_iff ht, prunings_compileProperties, prunings_compileItems,
        Schema.contains_object_of_strictTypes ht, Schema.contains_array_of_strictTypes ht]
  · rw [if_neg (mt List.isEmpty_iff.1 h), Schema.forall_uses_choice h, assembleChoice]
    split_ifs with hkept
    · simp [drop]
    · rw [compileAlternatives_eq, prunings_collect_indexed]
      simp

end Compilation

end StrictSchema
