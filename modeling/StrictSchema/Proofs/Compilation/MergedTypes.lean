import StrictSchema.Proofs.Compilation.Diagnostics
import StrictSchema.Proofs.Schema.TypeKeyword

/-!
# Compilation of what is read back

Writing a schema and reading it back merges the types of each node into one form. Whether a node has
a form, and what is recorded of it, depends on which types it names and not on how often
(`isSome_compile_mapTypes`, `prunings_mapTypes`). The form itself also depends on the number of
names that are left, so it is the same if merging drops no name (`compile_mapTypes`), which it does
only where a list of types holds the single type beside it (`TypeTags.names_merged`).
-/

namespace StrictSchema

open Schema

/-! ## Merged types -/

namespace TypeTags

theorem names_merged_of_notMem {t : TypeTags}
    (h : ∀ name, t.scalar = some name → name ∉ t.list) : t.merged.names = t.names := by
  have added : t.scalar.toList.filter (· ∉ t.list) = t.scalar.toList :=
    List.filter_eq_self.2 fun name mem => decide_eq_true (h name (Option.mem_toList.1 mem))
  rw [names_merged, added, names]

theorem resolve_merged {t : TypeTags} (h : ∀ name, t.scalar = some name → name ∉ t.list) :
    t.merged.resolve = t.resolve := by
  rw [resolve, resolve, names_merged_of_notMem h]

end TypeTags

/-! ## Changing the types of all nodes -/

namespace Schema

variable (g : TypeTags → TypeTags) (s : Schema)

theorem anyOf_mapTypes : (s.mapTypes g).anyOf = s.anyOf.map (mapTypes g) := by
  rw [mapTypes_eq]
  rfl

theorem anyOf_mapTypes_eq_nil_iff : (s.mapTypes g).anyOf = [] ↔ s.anyOf = [] := by
  rw [anyOf_mapTypes, List.map_eq_nil_iff]

theorem properties_mapTypes :
    (s.mapTypes g).properties = s.properties.map (Prod.map id (mapTypes g)) := by
  rw [mapTypes_eq]
  rfl

theorem items_mapTypes : (s.mapTypes g).items = s.items.map (.map (mapTypes g)) := by
  rw [mapTypes_eq]
  rfl

theorem types_mapTypes : (s.mapTypes g).types = g s.types := by
  rw [mapTypes_eq]

theorem propertySchemas_mapTypes :
    (s.mapTypes g).propertySchemas = s.propertySchemas.map (mapTypes g) := by
  rw [propertySchemas, properties_mapTypes, propertySchemas, List.map_map, List.map_map]
  rfl

theorem itemSchemas_mapTypes : (s.mapTypes g).itemSchemas = s.itemSchemas.map (mapTypes g) := by
  unfold itemSchemas
  rw [items_mapTypes]
  rcases s.items with _ | c | cs <;> rfl

theorem itemSteps_mapTypes :
    (s.mapTypes g).itemSteps = s.itemSteps.map (Prod.map id (mapTypes g)) := by
  unfold itemSteps
  rw [items_mapTypes]
  rcases s.items with _ | c | cs
  · rfl
  · rfl
  · simp [Items.map, List.zipIdx_map]

theorem forbiddenKeywords_mapTypes :
    (s.mapTypes g).forbiddenKeywords = s.forbiddenKeywords := by
  rw [mapTypes_eq]
  simp only [forbiddenKeywords, mapParts, Option.isSome_map]

theorem forbidden?_mapTypes : (s.mapTypes g).forbidden? = s.forbidden? := by
  rw [forbidden?, forbiddenKeywords_mapTypes, forbidden?]

theorem format_mapTypes : (s.mapTypes g).format = s.format := by
  rw [mapTypes_eq]
  rfl

theorem required_mapTypes : (s.mapTypes g).required = s.required := by
  rw [mapTypes_eq]
  rfl

/-! ## Verdict and record -/

theorem exists_mem_map_mapTypes {cs : List Schema}
    (h : ∀ c ∈ cs, (compile (c.mapTypes g)).isSome ↔ (compile c).isSome) :
    (∃ c ∈ cs.map (mapTypes g), (compile c).isSome) ↔ ∃ c ∈ cs, (compile c).isSome := by
  simp only [List.mem_map, exists_exists_and_eq_and]
  exact exists_congr fun c => and_congr_right (h c)

section Contains

variable {g} (hg : ∀ t name, (g t).contains name = t.contains name)
include hg

theorem contains_mapTypes (name : String) :
    (s.mapTypes g).types.contains name = s.types.contains name := by
  rw [types_mapTypes, hg]

theorem isExpressible_mapTypes : (s.mapTypes g).IsExpressible ↔ s.IsExpressible := by
  have hforbidden : (s.mapTypes g).NoForbidden ↔ s.NoForbidden := by
    rw [noForbidden_iff, noForbidden_iff, forbidden?_mapTypes]
  constructor
  · rintro ⟨htypes, hno, hformat⟩
    simp only [contains_mapTypes s hg] at htypes
    rw [format_mapTypes] at hformat
    exact ⟨htypes, hforbidden.1 hno, hformat⟩
  · rintro ⟨htypes, hno, hformat⟩
    refine ⟨?_, hforbidden.2 hno, ?_⟩
    · simpa only [contains_mapTypes s hg] using htypes
    · rwa [format_mapTypes]

theorem isSome_compile_mapTypes :
    (compile (s.mapTypes g)).isSome ↔ (compile s).isSome := by
  induction s using childInduction with
  | _ s ih =>
    by_cases hs : s.anyOf = []
    · have hproperties := exists_mem_map_mapTypes g fun c hc => ih c (.of_mem_propertySchemas hc)
      have hitems := exists_mem_map_mapTypes g fun c hc => ih c (.of_mem_itemSchemas hc)
      rw [isSome_compile_node_iff hs,
        isSome_compile_node_iff ((anyOf_mapTypes_eq_nil_iff g s).2 hs), isExpressible_mapTypes s hg,
        contains_mapTypes s hg, contains_mapTypes s hg, propertySchemas_mapTypes,
        itemSchemas_mapTypes, hproperties, hitems]
    · have hanyOf := exists_mem_map_mapTypes g fun c hc => ih c (.alternative hc)
      rw [isSome_compile_choice_iff hs,
        isSome_compile_choice_iff (mt (anyOf_mapTypes_eq_nil_iff g s).1 hs), anyOf_mapTypes, hanyOf]

/-- As many of the children as before have a form. -/
theorem exists_form_mapTypes (cs : List Schema) :
    (∃ c ∈ cs.map (mapTypes g), (compile c).isSome) ↔ ∃ c ∈ cs, (compile c).isSome :=
  exists_mem_map_mapTypes g fun c _ => isSome_compile_mapTypes c hg

theorem lookedAt_mapTypes :
    (s.mapTypes g).lookedAt = s.lookedAt.map (Prod.map id (mapTypes g)) := by
  by_cases hs : s.anyOf = []
  · have hs' := (anyOf_mapTypes_eq_nil_iff g s).2 hs
    by_cases h : s.IsExpressible
    · have hitems : (s.mapTypes g).LooksAtItems ↔ s.LooksAtItems := by
        rw [LooksAtItems, LooksAtItems, contains_mapTypes s hg, contains_mapTypes s hg,
          propertySchemas_mapTypes, exists_form_mapTypes hg]
      rw [lookedAt_node hs h, lookedAt_node hs' ((isExpressible_mapTypes s hg).2 h),
        contains_mapTypes s hg, properties_mapTypes, itemSteps_mapTypes, List.map_append]
      simp only [hitems, apply_ite (List.map _), List.map_map, List.map_nil]
      rfl
    · rw [lookedAt_eq_nil hs h, lookedAt_eq_nil hs' (mt (isExpressible_mapTypes s hg).1 h),
        List.map_nil]
  · rw [lookedAt_choice hs, lookedAt_choice (mt (anyOf_mapTypes_eq_nil_iff g s).1 hs),
      anyOf_mapTypes]
    simp [List.zipIdx_map]

theorem arrayFaults_mapTypes : (s.mapTypes g).arrayFaults = s.arrayFaults := by
  unfold arrayFaults
  simp only [contains_mapTypes s hg, itemSchemas_mapTypes, exists_form_mapTypes hg, items_mapTypes]
  rcases s.items with _ | c | cs <;> rfl

theorem faults_mapTypes : (s.mapTypes g).faults = s.faults := by
  have htypes : (s.mapTypes g).typeFaults = s.typeFaults := by
    simp only [typeFaults, contains_mapTypes s hg]
  have hkeywords : (s.mapTypes g).keywordFaults = s.keywordFaults := by
    rw [keywordFaults_eq, keywordFaults_eq, forbiddenKeywords_mapTypes]
  have hformat : (s.mapTypes g).formatFaults = s.formatFaults := by
    rw [formatFaults, formatFaults, format_mapTypes]
  have hobject : (s.mapTypes g).objectFaults = s.objectFaults := by
    simp only [objectFaults, contains_mapTypes s hg, propertySchemas_mapTypes,
      exists_form_mapTypes hg]
  unfold faults
  rw [htypes, hkeywords, hformat, hobject, arrayFaults_mapTypes s hg]
  simp only [anyOf_mapTypes, List.map_eq_nil_iff, exists_form_mapTypes hg]

/-- What is recorded depends on which types the nodes name, and not on how. -/
theorem compileAt_prunings_mapTypes (path : Path) :
    (compileAt path (s.mapTypes g)).prunings = (compileAt path s).prunings := by
  induction s using childInduction generalizing path with
  | _ s ih =>
    have hbelow : prunedBelow path (s.mapTypes g).lookedAt = prunedBelow path s.lookedAt := by
      rw [lookedAt_mapTypes s hg, prunedBelow, prunedBelow, List.flatMap_map]
      exact List.flatMap_congr fun x hx => ih x.2 (.of_mem_lookedAt hx) _
    have hreason : (s.mapTypes g).pruning? path = s.pruning? path := by
      rw [pruning?, pruning?, reason?, reason?, faults_mapTypes s hg]
    rw [compileAt_prunings_eq, compileAt_prunings_eq, hbelow, hreason]

end Contains

/-! ## Form -/

theorem rebuild_mapTypes : (s.mapTypes g).rebuild = s.rebuild := by
  rw [mapTypes_eq]
  rfl

theorem strictTypes_mapTypes (h : (g s.types).resolve = s.types.resolve) :
    (s.mapTypes g).strictTypes = s.strictTypes := by
  rw [strictTypes, strictTypes, types_mapTypes, h, forbidden?_mapTypes, usedFormat, usedFormat,
    format_mapTypes]

theorem filterMap_compile_map {cs : List Schema}
    (h : ∀ c ∈ cs, compile (c.mapTypes g) = compile c) :
    (cs.map (mapTypes g)).filterMap compile = cs.filterMap compile := by
  rw [List.filterMap_map]
  exact List.filterMap_congr h

/-- The form depends on what structured output makes of the types of the nodes. -/
theorem compile_mapTypes (h : ∀ d, s.IsNode d → (g d.types).resolve = d.types.resolve) :
    compile (s.mapTypes g) = compile s := by
  induction s using childInduction with
  | _ s ih =>
    have hchild (c : Schema) (hc : IsChild s c) : compile (c.mapTypes g) = compile c :=
      ih c hc fun d hd => h d (.of_child hc hd)
    by_cases hs : s.anyOf = []
    · have hproperties : ∀ types, (s.mapTypes g).formProperties types = s.formProperties types := by
        intro types
        rw [formProperties, formProperties, properties_mapTypes, required_mapTypes,
          List.filterMap_map]
        have hforms : s.properties.filterMap
            (propertyForm s.required ∘ Prod.map id (mapTypes g)) =
              s.properties.filterMap (propertyForm s.required) := by
          refine List.filterMap_congr fun p hp => ?_
          rw [Function.comp_apply, propertyForm, propertyForm, Prod.map_snd,
            hchild p.2 (.property hp)]
          rfl
        rw [hforms]
      have hitems : ∀ types, (s.mapTypes g).formItems types = s.formItems types := by
        intro types
        have hforms : itemsForm (s.mapTypes g).items = itemsForm s.items := by
          rw [items_mapTypes]
          rcases hsitems : s.items with _ | c | cs
          · rfl
          · exact congrArg (Option.map Items.single) (hchild c (.item hsitems))
          · have hkept := filterMap_compile_map g fun c hc => hchild c (.element hsitems hc)
            simp only [Option.map_some, Items.map, itemsForm, hkept]
        rw [formItems, formItems, hforms]
      ext r
      rw [compile_node_eq_some_iff hs,
        compile_node_eq_some_iff ((anyOf_mapTypes_eq_nil_iff g s).2 hs),
        strictTypes_mapTypes g s (h s (.refl s))]
      simp only [hproperties, hitems, rebuild_mapTypes]
    · rw [compile_choice hs, compile_choice (mt (anyOf_mapTypes_eq_nil_iff g s).1 hs),
        anyOf_mapTypes, filterMap_compile_map g fun c hc => hchild c (.alternative hc)]

end Schema

/-- A schema that keeps no known keyword among the others is read back as one with the same verdict
and the same prunings, and with the same form if no list of types holds the single type beside it.
-/
theorem compile_decode_encode {s : Schema}
    (h : ∀ d, s.IsWithin d → ∀ name ∈ Members.names d.extra, Keyword.ofName? name = none) :
    ∃ t, Schema.decode s.encode = .ok t ∧ ((compile t).isSome ↔ (compile s).isSome) ∧
      prunings t = prunings s ∧
      ((∀ d, s.IsNode d → ∀ name, d.types.scalar = some name → name ∉ d.types.list) →
        compile t = compile s) := by
  refine ⟨_, Schema.decode_encode h, ?_, ?_, ?_⟩
  · exact isSome_compile_mapTypes s TypeTags.contains_merged
  · exact compileAt_prunings_mapTypes s TypeTags.contains_merged []
  · intro hdisjoint
    exact compile_mapTypes _ s fun d hd => TypeTags.resolve_merged (hdisjoint d hd)

/-- Texts or null, with the types of the items in both forms. -/
def mixedItems : Schema :=
  .arrayOf
    { types := { scalar := some "null", list := ["string"] }
      extra := [("title", .string "text")] }

/-- What `mixedItems` is read back as. -/
def mergedItems : Schema :=
  .arrayOf { types := .many ["string", "null"], extra := [("title", .string "text")] }

theorem compile_decode_encode_mixedItems :
    Schema.decode mixedItems.encode = .ok mergedItems ∧
      ((compile mergedItems).isSome ↔ (compile mixedItems).isSome) ∧
      prunings mergedItems = prunings mixedItems ∧ compile mergedItems = compile mixedItems := by
  have hextra : ∀ d, mixedItems.IsWithin d →
      ∀ name ∈ Members.names d.extra, Keyword.ofName? name = none := by
    refine Schema.forall_isWithin_iff.2 ⟨nofun, List.forall_mem_singleton.2 ?_⟩
    exact Schema.forall_isWithin_iff.2 ⟨by decide, nofun⟩
  have hdisjoint : ∀ d, mixedItems.IsWithin d →
      ∀ name, d.types.scalar = some name → name ∉ d.types.list := by
    refine Schema.forall_isWithin_iff.2 ⟨fun _ _ => List.not_mem_nil, ?_⟩
    refine List.forall_mem_singleton.2 (Schema.forall_isWithin_iff.2 ⟨fun name hname => ?_, nofun⟩)
    obtain rfl : "null" = name := Option.some.inj hname
    decide
  have hread : Schema.decode mixedItems.encode = .ok mergedItems := rfl
  obtain ⟨t, ht, hform, hprunings, hsame⟩ := compile_decode_encode hextra
  obtain rfl : mergedItems = t := Except.ok.inj (hread.symm.trans ht)
  exact ⟨hread, hform, hprunings, hsame fun d hd => hdisjoint d hd.isWithin⟩

end StrictSchema
