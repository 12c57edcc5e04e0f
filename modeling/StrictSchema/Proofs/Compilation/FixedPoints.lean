import Mathlib.Data.List.Basic
import Mathlib.Logic.Function.Iterate
import StrictSchema.Proofs.Compilation.Dialect
import StrictSchema.Proofs.Compilation.Forms

/-!
# Compilation and the strict dialect

The form of a schema is in the strict dialect (`inDialect_of_compile`), and a schema of the dialect
is its own form, found without prunings (`Schema.InDialect.compile_eq`,
`Schema.InDialect.prunings_eq`). So the schemas of the dialect are exactly the fixed points of
compilation, and compiling a second time changes nothing.
-/

namespace StrictSchema

open Schema

/-! ## Forms are in the dialect -/

theorem isStrictNode_form {s : Schema} {types : TypeTags} (ht : s.strictTypes = .ok types)
    (hobject : types.contains "object" → s.formProperties types ≠ [])
    (harray : types.contains "array" → s.formItems types ≠ none) :
    (s.rebuild types (s.formProperties types) (s.formItems types)).IsStrictNode where
  anyOf := rfl
  types := (TypeTags.resolve_eq_some (strictTypes_eq_ok_iff.1 ht).1).1
  format := (strictTypes_eq_ok_iff.1 ht).2.2
  noForbidden := noForbidden_iff.2 rfl
  not := rfl
  extra := rfl
  object := by
    show if types.contains "object" then _ else _
    split_ifs with h
    · exact ⟨hobject h, rfl, if_pos h⟩
    · have hnil : s.formProperties types = [] := if_neg h
      exact ⟨hnil, by rw [hnil]; rfl, if_neg h⟩
  array := by
    show if types.contains "array" then _ else _
    split_ifs with h
    · obtain ⟨items, hitems⟩ := Option.ne_none_iff_exists'.1 (harray h)
      have hform : itemsForm s.items = some items := by rwa [formItems, if_pos h] at hitems
      cases items with
      | single c => exact .inl ⟨c, hitems⟩
      | tuple cs => exact .inr ⟨cs, (itemsForm_eq_tuple_iff.1 hform).1, hitems⟩
    · exact if_neg h

theorem inDialect_of_compile {s r : Schema} (h : compile s = some r) : InDialect r := by
  induction s using childInduction generalizing r with
  | _ s ih =>
    refine .intro ?_ fun c hc => ?_
    · by_cases hs : s.anyOf = []
      · obtain ⟨types, ht, hobject, harray, rfl⟩ := (compile_node_eq_some_iff hs).1 h
        exact .node (isStrictNode_form ht hobject harray)
      · obtain ⟨hne, rfl⟩ := (compile_choice_eq_some_iff hs).1 h
        exact .choice hne rfl
    · obtain ⟨d, e, hd, he, rfl | rfl⟩ := exists_of_isChild_form h hc
      · exact ih d hd he
      · exact (ih d hd he).withNull

/-- Each node of a form is strict: the form itself, its alternatives, properties and items, and so
on down. -/
theorem isStrict_of_isNode_compile {s r : Schema} (h : compile s = some r) :
    ∀ d, r.IsNode d → d.IsStrict :=
  inDialect_iff.1 (inDialect_of_compile h)

/-- An object with an optional choice between a number and what cannot be expressed. -/
def optionalChoice : Schema :=
  { object [("m", ofType "string"),
      ("n", ofAlternatives [ofType "number", { uniqueItems := true }])] with
    required := ["m"] }

/-- The form of `optionalChoice`. -/
def optionalChoiceForm : Schema :=
  { types := .single "object", required := ["m", "n"], additionalProperties := some .nothing,
    properties := [("m", ofType "string"),
      ("n", ofAlternatives [ofType "number", ofType "null"])] }

theorem isStrict_optionalChoice :
    compile optionalChoice = some optionalChoiceForm ∧ optionalChoiceForm.IsNode (ofType "null") ∧
      (ofType "null").IsStrict := by
  have hform : compile optionalChoice = some optionalChoiceForm := rfl
  have hchild : optionalChoiceForm.IsChild (ofAlternatives [ofType "number", ofType "null"]) :=
    .property (List.mem_cons_of_mem _ List.mem_cons_self)
  have hnull : optionalChoiceForm.IsNode (ofType "null") :=
    .of_child hchild (.of_child (.alternative (List.mem_cons_of_mem _ List.mem_cons_self))
      (.refl _))
  exact ⟨hform, hnull, isStrict_of_isNode_compile hform _ hnull⟩

/-! ## The dialect is left alone -/

theorem Schema.IsStrictNode.strictTypes_eq {s : Schema} (h : s.IsStrictNode) :
    s.strictTypes = .ok s.types := by
  refine strictTypes_eq_ok_iff.2 ⟨h.types.resolve_eq, noForbidden_iff.1 h.noForbidden, ?_⟩
  intro format hformat
  exact h.format format (Option.filter_eq_some_iff.1 hformat).1

/-- A supported format is not empty, so it is the one that is used. -/
theorem Schema.IsStrictNode.usedFormat_eq {s : Schema} (h : s.IsStrictNode) :
    s.usedFormat = s.format := by
  unfold usedFormat
  cases hs : s.format with
  | none => rfl
  | some format =>
    have hne : ∀ f ∈ supportedFormats, (!f.isEmpty) = true := by decide
    exact Option.filter_some_pos (hne format (h.format format hs))

/-- A strict node is made of nothing but what a form is made of. -/
theorem Schema.IsStrictNode.rebuild_eq {s : Schema} (h : s.IsStrictNode) :
    s.rebuild s.types s.properties s.items = s := by
  have hrequired : Members.names s.properties = s.required := by
    by_cases hs : s.types.contains "object"
    · exact (h.isClosedObject hs).required.symm
    · rw [(h.isNoObject hs).properties, (h.isNoObject hs).required]
      rfl
  have hadditional :
      (if s.types.contains "object" then some .nothing else none) = s.additionalProperties := by
    split_ifs with hs
    · exact (h.isClosedObject hs).additionalProperties.symm
    · exact (h.isNoObject hs).additionalProperties.symm
  rw [rebuild, h.usedFormat_eq, hrequired, hadditional]
  obtain ⟨hanyOf, -, -, hforbidden, hnot, hextra, -, -⟩ := h
  obtain ⟨h₁, h₂, h₃, h₄, h₅, h₆, h₇, h₈, h₉, h₁₀⟩ := hforbidden
  cases s
  simp_all

theorem filterMap_compile_eq {ss : List Schema} (h : ∀ s ∈ ss, compile s = some s) :
    ss.filterMap compile = ss :=
  (List.filterMap_congr h).trans List.filterMap_some

theorem Schema.IsStrictNode.formProperties_eq {s : Schema} (h : s.IsStrictNode)
    (hcompile : ∀ p ∈ s.properties, compile p.2 = some p.2) :
    s.formProperties s.types = s.properties := by
  unfold formProperties
  split_ifs with hs
  · refine (List.filterMap_congr fun p hp => ?_).trans List.filterMap_some
    have hrequired : s.required.contains p.1 := by
      rw [(h.isClosedObject hs).required]
      exact List.contains_iff_mem.2 (List.mem_map_of_mem hp)
    rw [propertyForm, hcompile p hp, Option.map_some, if_pos hrequired]
  · exact (h.isNoObject hs).properties.symm

theorem Schema.IsStrictNode.formItems_eq {s : Schema} (h : s.IsStrictNode)
    (hsingle : ∀ c, s.items = some (.single c) → compile c = some c)
    (htuple : ∀ cs, s.items = some (.tuple cs) → ∀ c ∈ cs, compile c = some c) :
    s.formItems s.types = s.items := by
  unfold formItems
  split_ifs with hs
  · rcases h.hasItems hs with ⟨c, hc⟩ | ⟨cs, hne, hcs⟩
    · rw [hc, itemsForm, hsingle c hc, Option.map_some]
    · rw [hcs, itemsForm, filterMap_compile_eq (htuple cs hcs), if_neg (mt List.isEmpty_iff.1 hne)]
  · exact (h.items_eq_none hs).symm

theorem Schema.InDialect.compile_eq {s : Schema} (h : InDialect s) : compile s = some s := by
  induction h with
  | @intro s hs _ ih =>
    cases hs with
    | choice hne honly =>
      have hkept : s.anyOf.filterMap compile = s.anyOf :=
        filterMap_compile_eq fun c hc => ih c (.alternative hc)
      rw [compile_choice_eq_some_iff hne, hkept]
      exact ⟨hne, honly⟩
    | node hs =>
      have hproperties : s.formProperties s.types = s.properties :=
        hs.formProperties_eq fun p hp => ih p.2 (.property hp)
      have hitems : s.formItems s.types = s.items :=
        hs.formItems_eq (fun c hc => ih c (.item hc)) fun cs hcs c hc => ih c (.element hcs hc)
      rw [compile_node_eq_some_iff hs.anyOf]
      refine ⟨s.types, hs.strictTypes_eq, fun hobject => ?_, fun harray => ?_, ?_⟩
      · rw [hproperties]
        exact (hs.isClosedObject hobject).properties
      · rw [hitems]
        rcases hs.hasItems harray with ⟨c, hc⟩ | ⟨cs, -, hcs⟩
        · simp [hc]
        · simp [hcs]
      · rw [hproperties, hitems, hs.rebuild_eq]

theorem Schema.InDialect.prunings_eq {s : Schema} (h : InDialect s) : prunings s = [] := by
  have hform := h.compile_eq
  induction h with
  | @intro s _ hchildren ih =>
    refine prunings_eq_nil_iff.2 ⟨by rw [hform]; rfl, fun c hc => ?_⟩
    exact ih c hc.isChild (hchildren c hc.isChild).compile_eq

theorem compile_eq_self_iff {s : Schema} : compile s = some s ↔ InDialect s :=
  ⟨inDialect_of_compile, InDialect.compile_eq⟩

theorem compileOptional_compile (s : Schema) : compileOptional (compile s) = compile s := by
  cases h : compile s with
  | none => rfl
  | some r => exact (inDialect_of_compile h).compile_eq

/-- The schemas that compilation leaves alone are those of the dialect. Therefore a form is its own
form, however often it is compiled again, and nothing is pruned from a schema of the dialect. -/
theorem compile_fixed_points (s : Schema) :
    (compile s = some s ↔ ∀ d, s.IsNode d → d.IsStrict) ∧
      (∀ r, compile s = some r → compile r = some r) ∧
      (∀ n, compileOptional^[n] (compile s) = compile s) ∧
      ((∀ d, s.IsNode d → d.IsStrict) → prunings s = []) := by
  refine ⟨?_, ?_, ?_, ?_⟩
  · rw [compile_eq_self_iff, inDialect_iff]
  · intro r hr
    exact (inDialect_of_compile hr).compile_eq
  · intro n
    exact Function.iterate_fixed (compileOptional_compile s) n
  · intro h
    exact (inDialect_iff.2 h).prunings_eq

theorem fixed_point_optionalChoiceForm :
    compile optionalChoiceForm = some optionalChoiceForm ∧
      (∀ d, optionalChoiceForm.IsNode d → d.IsStrict) ∧ prunings optionalChoiceForm = [] := by
  have hfixed : compile optionalChoiceForm = some optionalChoiceForm :=
    (compile_fixed_points optionalChoice).2.1 _ rfl
  obtain ⟨hiff, -, -, hprunings⟩ := compile_fixed_points optionalChoiceForm
  exact ⟨hfixed, hiff.1 hfixed, hprunings (hiff.1 hfixed)⟩

end StrictSchema
