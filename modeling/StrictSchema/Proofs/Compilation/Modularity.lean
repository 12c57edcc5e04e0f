import StrictSchema.Proofs.Compilation.FixedPoints
import StrictSchema.Proofs.Schema.Contexts

/-!
# Compilation and the places in a schema

A node looks at its children only through their forms (`compile_congr`), and so does every schema at
its nodes: schemas of the same form are interchangeable at any place (`Context.compile_fill_congr`).
A child without a form may as well be left out, where its node can do without it
(`Frame.compile_close`).
-/

namespace StrictSchema

open Schema

/-- Other children do not matter if there are alternatives as before and what becomes of the
children is the same. -/
theorem compile_congr {s : Schema} {anyOf : List Schema} {properties : List (String × Schema)}
    {items : Option (Items Schema)} (hchoice : anyOf = [] ↔ s.anyOf = [])
    (hanyOf : anyOf.filterMap compile = s.anyOf.filterMap compile)
    (hproperties : properties.filterMap (propertyForm s.required) =
      s.properties.filterMap (propertyForm s.required))
    (hitems : itemsForm items = itemsForm s.items) :
    compile { s with anyOf := anyOf, properties := properties, items := items } = compile s := by
  by_cases hs : s.anyOf = []
  · have hformProperties : ∀ types,
        { s with anyOf := anyOf, properties := properties, items := items }.formProperties types =
          s.formProperties types := by
      intro types
      unfold formProperties
      rw [hproperties]
    have hformItems : ∀ types,
        { s with anyOf := anyOf, properties := properties, items := items }.formItems types =
          s.formItems types := by
      intro types
      unfold formItems
      rw [hitems]
    ext r
    rw [compile_node_eq_some_iff (hchoice.2 hs), compile_node_eq_some_iff hs]
    simp only [hformProperties, hformItems]
    rfl
  · rw [compile_choice (mt hchoice.1 hs), compile_choice hs, hanyOf]

namespace Frame

theorem compile_fill_congr (F : Frame) {c d : Schema} (h : compile d = compile c) :
    compile (F.fill d) = compile (F.fill c) := by
  cases F with
  | alternative s before after =>
    refine compile_congr (s := (alternative s before after).fill c) (by simp [fill]) ?_ rfl rfl
    simp only [fill, List.filterMap_append, List.filterMap_cons, h]
  | property s before name after =>
    refine compile_congr (s := (property s before name after).fill c) Iff.rfl rfl ?_ rfl
    simp only [fill, List.filterMap_append, List.filterMap_cons, propertyForm, h]
  | item s =>
    refine compile_congr (s := (item s).fill c) Iff.rfl rfl rfl ?_
    rw [fill, itemsForm, itemsForm, h]
  | element s before after =>
    refine compile_congr (s := (element s before after).fill c) Iff.rfl rfl rfl ?_
    simp only [fill, itemsForm, List.filterMap_append, List.filterMap_cons, h]

theorem compile_close {F : Frame} {c p : Schema} (hp : F.close? = some p) (h : compile c = none) :
    compile p = compile (F.fill c) := by
  cases F with
  | alternative s before after =>
    obtain ⟨hne, hp⟩ := Option.ite_none_left_eq_some.1 hp
    obtain rfl := Option.some.inj hp
    refine compile_congr (s := (alternative s before after).fill c) ?_ ?_ rfl rfl
    · simp [fill, List.append_eq_nil_iff.not.1 hne]
    · simp only [fill, List.filterMap_append, List.filterMap_cons, h]
  | property s before name after =>
    obtain rfl := Option.some.inj hp
    refine compile_congr (s := (property s before name after).fill c) Iff.rfl rfl ?_ rfl
    simp only [fill, List.filterMap_append, List.filterMap_cons, propertyForm, h, Option.map_none]
  | item s => cases hp
  | element s before after =>
    obtain rfl := Option.some.inj hp
    refine compile_congr (s := (element s before after).fill c) Iff.rfl rfl rfl ?_
    simp only [fill, itemsForm, List.filterMap_append, List.filterMap_cons, h]

end Frame

theorem Context.compile_fill_congr (K : Context) {c d : Schema} (h : compile d = compile c) :
    compile (K.fill d) = compile (K.fill c) := by
  induction K generalizing c d with
  | nil => exact h
  | cons F K ih => exact ih (F.compile_fill_congr h)

/-- At every place of a schema, a node may be replaced by another of the same form, by its own form,
or by nothing if it has no form and may be left out there. -/
theorem compile_modular (c : Schema) :
    (∀ s, s.IsNode c ↔ ∃ K : Context, K.fill c = s) ∧
      ∀ K : Context,
        (∀ d, compile d = compile c → compile (K.fill d) = compile (K.fill c)) ∧
        (∀ r, compile c = some r → compile (K.fill r) = compile (K.fill c)) ∧
        ∀ F : Frame, ∀ p, F.close? = some p → compile c = none →
          compile (K.fill p) = compile (K.fill (F.fill c)) := by
  refine ⟨fun _ => isNode_iff_exists_fill, fun K => ⟨?_, ?_, ?_⟩⟩
  · intro d hd
    exact K.compile_fill_congr hd
  · intro r hr
    refine K.compile_fill_congr ?_
    rw [hr, (inDialect_of_compile hr).compile_eq]
  · intro F p hp hc
    exact K.compile_fill_congr (Frame.compile_close hp hc)

/-- The place of the optional choice of `optionalChoice`, in an array of such objects. -/
def choicePlace : Context :=
  [.property optionalChoice [("m", ofType "string")] "n" [], .item (arrayOf {})]

/-- The choice has the form that is left of it without the alternative that cannot be expressed. -/
theorem compile_choicePlace :
    (compile (ofAlternatives [ofType "number"]) =
        compile (ofAlternatives [ofType "number", { uniqueItems := true }]) ∧
      compile (choicePlace.fill (ofAlternatives [ofType "number"])) =
        compile (choicePlace.fill (ofAlternatives [ofType "number", { uniqueItems := true }]))) ∧
    (compile (ofAlternatives [ofType "number", { uniqueItems := true }]) =
        some (ofAlternatives [ofType "number"]) ∧
      compile (choicePlace.fill (ofAlternatives [ofType "number"])) =
        compile (choicePlace.fill (ofAlternatives [ofType "number", { uniqueItems := true }]))) ∧
    (Frame.alternative {} [ofType "number"] []).close? = some (ofAlternatives [ofType "number"]) ∧
      compile { uniqueItems := true } = none ∧
      compile (choicePlace.fill (ofAlternatives [ofType "number"])) =
        compile (choicePlace.fill
          ((Frame.alternative {} [ofType "number"] []).fill { uniqueItems := true })) := by
  have hsame : compile (ofAlternatives [ofType "number"]) =
      compile (ofAlternatives [ofType "number", { uniqueItems := true }]) := rfl
  have hform : compile (ofAlternatives [ofType "number", { uniqueItems := true }]) =
      some (ofAlternatives [ofType "number"]) := rfl
  have hclose : (Frame.alternative {} [ofType "number"] []).close? =
      some (ofAlternatives [ofType "number"]) := rfl
  have hnone : compile { uniqueItems := true } = none := rfl
  obtain ⟨hreplace, hprecompile, -⟩ := (compile_modular _).2 choicePlace
  obtain ⟨-, -, hdelete⟩ := (compile_modular { uniqueItems := true }).2 choicePlace
  exact ⟨⟨hsame, hreplace _ hsame⟩, ⟨hform, hprecompile _ hform⟩, hclose, hnone,
    hdelete _ _ hclose hnone⟩

end StrictSchema
