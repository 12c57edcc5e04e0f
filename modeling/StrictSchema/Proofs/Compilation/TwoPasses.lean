import StrictSchema.Proofs.Compilation.FixedPoints
import StrictSchema.Proofs.Compilation.Supportable

/-!
# Compilation in two passes

Compilation decides what to drop while it rewrites what stays. Here the two are apart: `prune`
deletes the alternatives, properties and tuple elements that cannot be expressed and changes nothing
else, and `normalise` rewrites every node into the shape of the dialect and drops none. A schema
that can be expressed has the form that the two passes give one after the other
(`compile_eq_normalise_prune`).
-/

namespace StrictSchema

open Schema

/-! ## Deleting what cannot be expressed -/

namespace Schema

mutual

/-- The schema without the alternatives, properties and tuple elements that cannot be expressed. -/
def prune : Schema → Schema
  | s@{ anyOf, items, properties, .. } =>
    { s with
      anyOf := pruneEach anyOf
      items := pruneItems items
      properties := pruneProperties properties }
termination_by structural s => s

/-- What is left of a list. -/
def pruneEach : List Schema → List Schema
  | [] => []
  | s :: ss => if Supportable s then prune s :: pruneEach ss else pruneEach ss
termination_by structural ss => ss

/-- What is left of a map. -/
def pruneProperties : List (String × Schema) → List (String × Schema)
  | [] => []
  | (name, s) :: ss =>
    if Supportable s then (name, prune s) :: pruneProperties ss else pruneProperties ss
termination_by structural ss => ss

/-- What is left of the items; a single schema stays. -/
def pruneItems : Option (Items Schema) → Option (Items Schema)
  | none => none
  | some (.single s) => some (.single (prune s))
  | some (.tuple ss) => some (.tuple (pruneEach ss))
termination_by structural items => items

end

theorem pruneEach_eq (ss : List Schema) :
    pruneEach ss = (ss.filter fun s => Supportable s).map prune := by
  induction ss with
  | nil => rw [pruneEach, List.filter_nil, List.map_nil]
  | cons s rest ih =>
    rw [pruneEach, ih]
    by_cases h : Supportable s <;> simp [h]

theorem pruneProperties_eq (ps : List (String × Schema)) :
    pruneProperties ps =
      (ps.filter fun p => Supportable p.2).map fun p => (p.1, prune p.2) := by
  induction ps with
  | nil => rw [pruneProperties, List.filter_nil, List.map_nil]
  | cons p rest ih =>
    rw [pruneProperties, ih]
    by_cases h : Supportable p.2 <;> simp [h]

theorem prune_eq (s : Schema) :
    s.prune = { s with
      anyOf := pruneEach s.anyOf, items := pruneItems s.items,
      properties := pruneProperties s.properties } := by
  cases s
  rw [prune]

end Schema

/-! ## Rewriting node by node -/

namespace TypeTags

/-- One name stands alone, several make a list. -/
def ofNames : List String → TypeTags
  | [name] => .single name
  | names => .many names

/-- The names that structured output knows; repeats stay. -/
def supported (t : TypeTags) : TypeTags := ofNames (t.names.filter (· ∈ supportedTypes))

/-- The names with null at the end, unless it is there. -/
def orNull (t : TypeTags) : TypeTags :=
  if "null" ∈ t.names then t else ofNames (t.names ++ ["null"])

end TypeTags

namespace Schema

/-- The node with null admitted by one more type or, if it is a choice none of whose alternatives is
null alone, by one more alternative. -/
def orNull (s : Schema) : Schema :=
  if s.anyOf = [] then { s with types := s.types.orNull }
  else if ∃ c ∈ s.anyOf, c.types.isNullOnly then s
  else { s with anyOf := s.anyOf ++ [.ofType "null"] }

/-- A node of the dialect with the keywords of `s` that structured output knows, and with the given
children as far as its alternatives and its types ask for them. -/
def normaliseNode (s : Schema) (alternatives : List Schema) (properties : List (String × Schema))
    (items : Option (Items Schema)) : Schema :=
  if s.anyOf = [] then
    { types := s.types.supported
      limits := s.limits
      format := s.format.filter (· ≠ "")
      items := if s.types.contains "array" then items else none
      properties := if s.types.contains "object" then properties else []
      required := if s.types.contains "object" then Members.names properties else []
      additionalProperties := if s.types.contains "object" then some .nothing else none
      examples := s.examples }
  else { anyOf := alternatives }

mutual

/-- The schema with every node rewritten into the shape of the dialect. -/
def normalise : Schema → Schema
  | s@{ anyOf, items, properties, required, .. } =>
    s.normaliseNode (normaliseEach anyOf) (normaliseProperties required properties)
      (normaliseItems items)
termination_by structural s => s

def normaliseEach : List Schema → List Schema
  | [] => []
  | s :: ss => normalise s :: normaliseEach ss
termination_by structural ss => ss

/-- The properties rewritten; one that is not required admits null. -/
def normaliseProperties (required : List String) : List (String × Schema) → List (String × Schema)
  | [] => []
  | (name, s) :: ss =>
    (name, if name ∈ required then normalise s else (normalise s).orNull) ::
      normaliseProperties required ss
termination_by structural ss => ss

def normaliseItems : Option (Items Schema) → Option (Items Schema)
  | none => none
  | some (.single s) => some (.single (normalise s))
  | some (.tuple ss) => some (.tuple (normaliseEach ss))
termination_by structural items => items

end

theorem normaliseEach_eq (ss : List Schema) : normaliseEach ss = ss.map normalise := by
  induction ss with
  | nil => rw [normaliseEach, List.map_nil]
  | cons s rest ih => rw [normaliseEach, List.map_cons, ih]

theorem normaliseProperties_eq (required : List String) (ps : List (String × Schema)) :
    normaliseProperties required ps = ps.map fun p =>
      (p.1, if p.1 ∈ required then normalise p.2 else (normalise p.2).orNull) := by
  induction ps with
  | nil => rw [normaliseProperties, List.map_nil]
  | cons p rest ih => rw [normaliseProperties, List.map_cons, ih]

theorem normalise_eq (s : Schema) :
    s.normalise = s.normaliseNode (normaliseEach s.anyOf)
      (normaliseProperties s.required s.properties) (normaliseItems s.items) := by
  cases s
  rw [normalise]

end Schema

/-! ## The two passes make the form -/

theorem TypeTags.resolve_eq_supported {t u : TypeTags} (h : t.resolve = some u) :
    t.supported = u := by
  have hfilter : t.names.filter supportedTypes.contains =
      t.names.filter fun name => name ∈ supportedTypes :=
    List.filter_congr fun name _ => by
      rw [Bool.eq_iff_iff, List.contains_iff_mem, decide_eq_true_iff]
  unfold resolve at h
  rw [hfilter] at h
  unfold supported ofNames
  split at h <;> simp_all

theorem TypeTags.IsStrict.orNull_eq {t : TypeTags} (h : t.IsStrict) :
    t.orNull = t.withNull := by
  unfold orNull
  cases h with
  | @single name h =>
    rw [withNull_single, names_single]
    by_cases hname : name = "null"
    · simp [hname]
    · simp [hname, Ne.symm hname, ofNames]
  | @many names hlen h =>
    rw [withNull_many, names_many]
    match names, hlen with
    | _ :: _ :: _, _ => rfl

theorem Schema.InDialect.orNull_eq {s : Schema} (h : InDialect s) : s.orNull = s.withNull := by
  unfold orNull
  cases h.isStrict with
  | choice hne honly =>
    rw [if_neg hne, withNull_choice hne]
    simp only [List.any_eq_true]
  | node hs => rw [if_pos hs.anyOf, withNull_node hs.anyOf, hs.types.orNull_eq]

theorem Schema.normalise_prune_node {s : Schema} (hs : s.anyOf = []) :
    s.prune.normalise = s.normaliseNode [] (normaliseProperties s.required
      (pruneProperties s.properties)) (normaliseItems (pruneItems s.items)) := by
  rw [normalise_eq, prune_eq]
  simp only [normaliseNode, hs, pruneEach, normaliseEach, if_true]

theorem Schema.normalise_prune_choice {s : Schema} (hs : pruneEach s.anyOf ≠ []) :
    s.prune.normalise = ofAlternatives (normaliseEach (pruneEach s.anyOf)) := by
  rw [normalise_eq, prune_eq]
  simp only [normaliseNode, hs, if_false]
  rfl

theorem Schema.rebuild_eq_normaliseNode {s : Schema} {types : TypeTags} (hs : s.anyOf = [])
    (ht : s.strictTypes = .ok types) (properties : List (String × Schema))
    (items : Option (Items Schema)) :
    s.rebuild types (if types.contains "object" then properties else [])
      (if types.contains "array" then items else none) = s.normaliseNode [] properties items := by
  have htypes : s.types.supported = types :=
    TypeTags.resolve_eq_supported (strictTypes_eq_ok_iff.1 ht).1
  have hformat : s.format.filter (· ≠ "") = s.usedFormat :=
    congrArg s.format.filter (funext fun format => by rw [Bool.eq_iff_iff]; simp)
  rw [normaliseNode, if_pos hs, rebuild, htypes, hformat, ← contains_object_of_strictTypes ht,
    ← contains_array_of_strictTypes ht]
  split_ifs <;> rfl

theorem filterMap_eq_map_filter {α β : Type} {p : α → Bool} {f : α → Option β} {g : α → β}
    {xs : List α} (h : ∀ x ∈ xs, f x = if p x then some (g x) else none) :
    xs.filterMap f = (xs.filter p).map g := by
  rw [List.filterMap_congr h, ← List.filterMap_eq_map, List.filterMap_filter]
  rfl

theorem compile_eq_none_iff {s : Schema} : compile s = none ↔ ¬ Supportable s := by
  rw [← isSome_compile_iff, Option.not_isSome_iff_eq_none]

theorem filterMap_compile_eq_normaliseEach {cs : List Schema}
    (h : ∀ c ∈ cs, Supportable c → compile c = some c.prune.normalise) :
    cs.filterMap compile = normaliseEach (pruneEach cs) := by
  rw [normaliseEach_eq, pruneEach_eq, List.map_map]
  refine filterMap_eq_map_filter fun c hc => ?_
  by_cases hs : Supportable c
  · simp [h c hc hs, hs]
  · simp [compile_eq_none_iff.2 hs, hs]

theorem filterMap_propertyForm_eq_normaliseProperties {required : List String}
    {ps : List (String × Schema)}
    (h : ∀ p ∈ ps, Supportable p.2 → compile p.2 = some p.2.prune.normalise) :
    ps.filterMap (propertyForm required) = normaliseProperties required (pruneProperties ps) := by
  rw [normaliseProperties_eq, pruneProperties_eq, List.map_map]
  refine filterMap_eq_map_filter fun p hp => ?_
  by_cases hs : Supportable p.2
  · have hform := h p hp hs
    simp [propertyForm, hform, hs, (inDialect_of_compile hform).orNull_eq]
  · simp [propertyForm, compile_eq_none_iff.2 hs, hs]

theorem itemsForm_eq_normaliseItems {s : Schema} (hitems : itemsForm s.items ≠ none)
    (h : ∀ c ∈ s.itemSchemas, Supportable c → compile c = some c.prune.normalise) :
    itemsForm s.items = normaliseItems (pruneItems s.items) := by
  unfold itemSchemas at h
  cases hs : s.items with
  | none => rfl
  | some items =>
    rw [hs] at h hitems
    cases items with
    | single c =>
      have hsome : Supportable c := by
        rw [← isSome_compile_iff, Option.isSome_iff_ne_none]
        exact fun hnone => hitems (by rw [itemsForm, hnone, Option.map_none])
      rw [itemsForm, h c (List.mem_singleton.2 rfl) hsome, pruneItems, normaliseItems,
        Option.map_some]
    | tuple cs =>
      rw [itemsForm] at hitems ⊢
      rw [pruneItems, normaliseItems, ← filterMap_compile_eq_normaliseEach h]
      exact if_neg fun hnil => hitems (if_pos hnil)

theorem compile_choice_eq_normalise_prune {s : Schema} (hs : s.anyOf ≠ [])
    (hsupportable : Supportable s)
    (h : ∀ c, IsChild s c → Supportable c → compile c = some c.prune.normalise) :
    compile s = some s.prune.normalise := by
  have hkept : s.anyOf.filterMap compile = normaliseEach (pruneEach s.anyOf) :=
    filterMap_compile_eq_normaliseEach fun c hc => h c (.alternative hc)
  have hne : normaliseEach (pruneEach s.anyOf) ≠ [] := by
    rwa [← hkept, filterMap_compile_ne_nil_iff, ← isSome_compile_choice_iff hs, isSome_compile_iff]
  have hprune : pruneEach s.anyOf ≠ [] := by
    rintro hnil
    rw [hnil, normaliseEach] at hne
    exact hne rfl
  rw [compile_choice_eq_some_iff hs, normalise_prune_choice hprune, hkept]
  exact ⟨hne, rfl⟩

theorem compile_node_eq_normalise_prune {s : Schema} (hs : s.anyOf = [])
    (hsupportable : Supportable s)
    (h : ∀ c, IsChild s c → Supportable c → compile c = some c.prune.normalise) :
    compile s = some s.prune.normalise := by
  obtain ⟨r, hr⟩ := Option.isSome_iff_exists.1 ((isSome_compile_iff s).2 hsupportable)
  obtain ⟨types, ht, -, harray, rfl⟩ := (compile_node_eq_some_iff hs).1 hr
  have hproperties : s.properties.filterMap (propertyForm s.required) =
      normaliseProperties s.required (pruneProperties s.properties) :=
    filterMap_propertyForm_eq_normaliseProperties fun p hp => h p.2 (.property hp)
  have hitems : s.formItems types =
      if types.contains "array" then normaliseItems (pruneItems s.items) else none := by
    rw [formItems] at harray ⊢
    split_ifs with htypes
    · rw [if_pos htypes] at harray
      exact itemsForm_eq_normaliseItems (harray htypes) fun c hc => h c (.of_mem_itemSchemas hc)
    · rfl
  rw [hr, hitems, formProperties, hproperties, rebuild_eq_normaliseNode hs ht,
    normalise_prune_node hs]

/-- Compilation is deletion of what cannot be expressed, followed by rewriting of what is left. -/
theorem compile_eq_normalise_prune (s : Schema) :
    compile s = if Supportable s then some s.prune.normalise else none := by
  have hform : Supportable s → compile s = some s.prune.normalise := by
    induction s using childInduction with
    | _ s ih =>
      intro hsupportable
      by_cases hs : s.anyOf = []
      · exact compile_node_eq_normalise_prune hs hsupportable ih
      · exact compile_choice_eq_normalise_prune hs hsupportable ih
  split_ifs with hs
  · exact hform hs
  · exact compile_eq_none_iff.2 hs

example : optionalChoice.prune.normalise = optionalChoiceForm := by rfl

end StrictSchema
