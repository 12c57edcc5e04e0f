import Mathlib.Data.List.Basic
import StrictSchema.Proofs.Compilation.Visits
import StrictSchema.Proofs.Schema.Keywords

/-!
# What compilation records

A node without a form has faults (`Schema.faults`), and the first of them, in the order in which
they are checked, is the reason that is recorded (`Schema.reason?`). Compiling a node records what
compiling its children records, child by child, and then the reason of the node itself, if there is
one (`compileAt_prunings_eq`). So the prunings of a schema are the nodes without a form among those
that are looked at, in that order, each of them once and with its reason
(`compileAt_prunings_eq_visits`).
-/

namespace StrictSchema

open Schema

namespace Schema

/-! ## What may be wrong with a node -/

/-- The keywords that no node of the dialect has, in the order in which they are checked. -/
def forbiddenOrder : List Keyword :=
  [.const, .contains, .uniqueItems, .deprecated, .readOnly, .patternProperties, .additionalItems,
    .allOf, .oneOf, .prefixItems]

/-- No type that structured output knows is named. -/
def typeFaults (s : Schema) : List Reason :=
  if ∃ name ∈ supportedTypes, s.types.contains name then [] else [.noType]

def keywordFaults (s : Schema) : List Reason :=
  (forbiddenOrder.filter fun k => (s.value? k).isSome).map .forbidden

/-- There is a format, not the empty one, that structured output does not know. -/
def formatFaults (s : Schema) : List Reason :=
  match s.format with
  | none => []
  | some format => if format = "" ∨ format ∈ supportedFormats then [] else [.unknownFormat format]

/-- An object has no property with a form. -/
def objectFaults (s : Schema) : List Reason :=
  if s.types.contains "object" ∧ ¬ ∃ c ∈ s.propertySchemas, (compile c).isSome then [.noProperty]
  else []

/-- An array has no items with a form. -/
def arrayFaults (s : Schema) : List Reason :=
  if s.types.contains "array" ∧ ¬ ∃ c ∈ s.itemSchemas, (compile c).isSome then
    match s.items with
    | none => [.noItems]
    | some (.single _) => [.badItem]
    | some (.tuple _) => [.noElement]
  else []

/-- All that is wrong with a node, in the order in which it is checked. -/
def faults (s : Schema) : List Reason :=
  if s.anyOf = [] then
    s.typeFaults ++ (s.keywordFaults ++ (s.formatFaults ++ (s.objectFaults ++ s.arrayFaults)))
  else if ∃ c ∈ s.anyOf, (compile c).isSome then [] else [.noAlternative]

/-- Why a node has no form: what is found wrong first. -/
def reason? (s : Schema) : Option Reason := s.faults.head?

variable {s : Schema}

/-! ## The keywords of a node -/

theorem forbiddenKeywords_eq (s : Schema) :
    s.forbiddenKeywords = forbiddenOrder.map fun k => (k, (s.value? k).isSome) := by
  have hnode (c : Option Schema) : (encode? c).isSome = c.isSome := by
    cases c <;> simp [encode?]
  have hnodes (cs : Option (List Schema)) : (encodeEach? cs).isSome = cs.isSome := by
    cases cs <;> simp [encodeEach?]
  have hmap (ps : Option (List (String × Schema))) : (encodeMembers? ps).isSome = ps.isSome := by
    cases ps <;> simp [encodeMembers?]
  have hflag (b : Bool) : (flag b).isSome = b := by
    cases b <;> rfl
  simp only [forbiddenKeywords, forbiddenOrder, List.map_cons, List.map_nil, value?, hnode, hnodes,
    hmap, hflag]

theorem keywordFaults_eq (s : Schema) :
    s.keywordFaults = (s.forbiddenKeywords.filter Prod.snd).map (.forbidden ·.1) := by
  rw [keywordFaults, forbiddenKeywords_eq, List.filter_map, List.map_map]
  rfl

theorem head?_keywordFaults (s : Schema) :
    s.keywordFaults.head? = s.forbidden?.map .forbidden := by
  rw [keywordFaults_eq, List.head?_map, List.head?_filter, forbidden?, Option.map_map]
  rfl

/-- The empty format is not used, so it is no fault. -/
theorem formatFaults_of_usedFormat_eq_some {format : String} (h : s.usedFormat = some format) :
    s.formatFaults = if format ∈ supportedFormats then [] else [.unknownFormat format] := by
  obtain ⟨hformat, hne⟩ := Option.filter_eq_some_iff.1 h
  have hne : format ≠ "" := by simpa using hne
  rw [formatFaults, hformat]
  simp only [hne, false_or]

/-! ## A node is sound exactly if it has a form -/

theorem typeFaults_eq_nil_iff :
    s.typeFaults = [] ↔ ∃ name ∈ supportedTypes, s.types.contains name := by
  unfold typeFaults
  split_ifs with h <;> simp [h]

theorem keywordFaults_eq_nil_iff : s.keywordFaults = [] ↔ s.NoForbidden := by
  rw [← List.head?_eq_none_iff, head?_keywordFaults, Option.map_eq_none_iff, noForbidden_iff]

theorem formatFaults_eq_nil_iff : s.formatFaults = [] ↔
    ∀ format, s.format = some format → format = "" ∨ format ∈ supportedFormats := by
  unfold formatFaults
  cases s.format with
  | none => simp
  | some format =>
    by_cases h : format = "" ∨ format ∈ supportedFormats
    · simp [h]
    · simp [h]

theorem objectFaults_eq_nil_iff : s.objectFaults = [] ↔
    (s.types.contains "object" → ∃ c ∈ s.propertySchemas, (compile c).isSome) := by
  unfold objectFaults
  split_ifs with h
  · exact iff_of_false (by simp) fun hall => h.2 (hall h.1)
  · exact iff_of_true rfl fun hobject => not_not.1 fun hnone => h ⟨hobject, hnone⟩

theorem arrayFaults_eq_nil_iff : s.arrayFaults = [] ↔
    (s.types.contains "array" → ∃ c ∈ s.itemSchemas, (compile c).isSome) := by
  unfold arrayFaults
  split_ifs with h
  · refine iff_of_false ?_ fun hall => h.2 (hall h.1)
    split <;> exact List.cons_ne_nil _ _
  · exact iff_of_true rfl fun harray => not_not.1 fun hnone => h ⟨harray, hnone⟩

/-- A node has a form exactly if nothing is wrong with it. -/
theorem faults_eq_nil_iff (s : Schema) : s.faults = [] ↔ (compile s).isSome := by
  unfold faults
  by_cases hs : s.anyOf = []
  · rw [if_pos hs, isSome_compile_node_iff hs]
    simp only [List.append_eq_nil_iff, typeFaults_eq_nil_iff, keywordFaults_eq_nil_iff,
      formatFaults_eq_nil_iff, objectFaults_eq_nil_iff, arrayFaults_eq_nil_iff]
    constructor
    · rintro ⟨htypes, hforbidden, hformat, hchildren⟩
      exact ⟨⟨htypes, hforbidden, hformat⟩, hchildren⟩
    · rintro ⟨⟨htypes, hforbidden, hformat⟩, hchildren⟩
      exact ⟨htypes, hforbidden, hformat, hchildren⟩
  · rw [if_neg hs, isSome_compile_choice_iff hs]
    split_ifs with h
    · exact iff_of_true rfl h
    · exact iff_of_false (by simp) h

theorem reason?_eq_none_iff : s.reason? = none ↔ (compile s).isSome := by
  rw [reason?, List.head?_eq_none_iff, faults_eq_nil_iff]

/-! ## The reason of a node -/

theorem reason?_choice (hs : s.anyOf ≠ []) :
    s.reason? = if ∃ c ∈ s.anyOf, (compile c).isSome then none else some .noAlternative := by
  rw [reason?, faults, if_neg hs]
  split_ifs <;> rfl

theorem reason?_node (hs : s.anyOf = []) : s.reason? =
    s.typeFaults.head?.or (s.keywordFaults.head?.or (s.formatFaults.head?.or
      (s.objectFaults.head?.or s.arrayFaults.head?))) := by
  rw [reason?, faults, if_pos hs]
  simp only [List.head?_append]

/-- A node that is ruled out before its children are looked at. -/
theorem reason?_of_strictTypes_error (hs : s.anyOf = []) {reason : Reason}
    (h : s.strictTypes = .error reason) : s.reason? = some reason := by
  rw [reason?_node hs, head?_keywordFaults]
  unfold strictTypes at h
  cases hresolve : s.types.resolve with
  | none =>
    have htypes : s.typeFaults = [.noType] :=
      if_neg (by rw [← TypeTags.isSome_resolve_iff, hresolve]; exact Bool.false_ne_true)
    rw [hresolve] at h
    rw [htypes]
    exact congrArg some (Except.error.inj h)
  | some types =>
    have htypes : s.typeFaults = [] :=
      typeFaults_eq_nil_iff.2 (TypeTags.isSome_resolve_iff.1 (by rw [hresolve]; rfl))
    rw [hresolve] at h
    rw [htypes, List.head?_nil, Option.none_or]
    cases hforbidden : s.forbidden? with
    | some keyword =>
      rw [hforbidden] at h
      exact congrArg some (Except.error.inj h)
    | none =>
      rw [hforbidden] at h
      rw [Option.map_none, Option.none_or]
      cases hformat : s.usedFormat with
      | none =>
        rw [hformat] at h
        cases h
      | some format =>
        rw [hformat] at h
        rw [formatFaults_of_usedFormat_eq_some hformat]
        by_cases hsupported : format ∈ supportedFormats
        · simp [hsupported] at h
        · rw [if_neg hsupported]
          simpa [hsupported] using h

/-- A node that is not ruled out before its children are looked at. -/
theorem reason?_of_isExpressible (hs : s.anyOf = []) (h : s.IsExpressible) :
    s.reason? = s.objectFaults.head?.or s.arrayFaults.head? := by
  rw [reason?_node hs, typeFaults_eq_nil_iff.2 h.types, keywordFaults_eq_nil_iff.2 h.noForbidden,
    formatFaults_eq_nil_iff.2 h.format]
  rfl

end Schema

/-! ## One step of the pass -/

/-- What is recorded below a node at `path` whose children are reached by the given steps. -/
def prunedBelow (path : Path) (steps : List (Step × Schema)) : List Pruning :=
  steps.flatMap fun x => (compileAt (path ++ [x.1]) x.2).prunings

theorem prunedBelow_append (path : Path) (xs ys : List (Step × Schema)) :
    prunedBelow path (xs ++ ys) = prunedBelow path xs ++ prunedBelow path ys :=
  List.flatMap_append

theorem prunings_collect_zipIdx (path : Path) (step : Nat → Step) (cs : List Schema) :
    (Traced.collect (cs.zipIdx.map fun x => compileAt (path ++ [step x.2]) x.1)).prunings =
      prunedBelow path (cs.zipIdx.map fun x => (step x.2, x.1)) := by
  simp only [Traced.collect, prunedBelow, List.flatMap_map]

theorem compileProperties_prunings_eq (path : Path) (required : List String)
    (ps : List (String × Schema)) :
    (compileProperties path required ps).prunings =
      prunedBelow path (ps.map fun p => (.property p.1, p.2)) := by
  simp only [compileProperties_eq, Traced.collect, Traced.asProperty, prunedBelow, List.flatMap_map]

theorem compileItems_prunings_eq (path : Path) (s : Schema) :
    (compileItems path s.items).prunings = prunedBelow path s.itemSteps := by
  unfold itemSteps
  rcases s.items with _ | c | cs
  · rw [compileItems]
    rfl
  · have hitem (t : Traced (Option Schema)) : (assembleItem t).prunings = t.prunings := by
      unfold assembleItem
      split <;> rfl
    rw [compileItems, hitem]
    simp [prunedBelow]
  · have htuple (t : Traced (List Schema)) : (assembleTuple t).prunings = t.prunings := by
      unfold assembleTuple
      split <;> rfl
    rw [compileItems, htuple, compileElements_eq, prunings_collect_zipIdx]

/-- What is recorded of a node itself. -/
def Schema.pruning? (path : Path) (s : Schema) : Option Pruning := s.reason?.map (Pruning.mk path)

section Node

variable {path : Path} {s : Schema} {types : TypeTags}

theorem exists_property_iff (path : Path) (s : Schema) :
    (∃ c ∈ s.propertySchemas, (compile c).isSome) ↔
      (compileProperties path s.required s.properties).value ≠ [] := by
  rw [value_compileProperties, filterMap_propertyForm_ne_nil_iff]
  rfl

/-- The items of an array either have a form or are its fault. -/
theorem head?_arrayFaults (path : Path) (harray : s.types.contains "array") :
    s.arrayFaults.head? = match (compileItems path s.items).value with
      | .error reason => some reason
      | .ok _ => none := by
  unfold arrayFaults itemSchemas
  rcases s.items with _ | c | cs
  · simp [harray, compileItems]
  · rw [compileItems, assembleItem, compileAt_value]
    cases hc : compile c <;> simp [harray, hc]
  · rw [compileItems, assembleTuple, compileElements_eq, value_collect_indexed]
    by_cases hkept : ∃ c ∈ cs, (compile c).isSome
    · have hne : cs.filterMap compile ≠ [] := filterMap_compile_ne_nil_iff.2 hkept
      simp only [harray, hkept, hne, List.isEmpty_iff]
      rfl
    · have hnil : cs.filterMap compile = [] :=
        not_not.1 (mt filterMap_compile_ne_nil_iff.1 hkept)
      simp only [harray, hkept, hnil]
      rfl

theorem withItems_prunings_eq (kept : Traced (List (String × Schema)))
    (items : Traced (Except Reason (Items Schema))) :
    (withItems path s types kept items).prunings = kept.prunings ++ items.prunings ++
      match items.value with
      | .error reason => [⟨path, reason⟩]
      | .ok _ => [] := by
  rcases items with ⟨reason | items, prunings⟩
  · rfl
  · exact (List.append_nil _).symm

/-- The work on a node without alternatives that is not ruled out before its children. -/
theorem assembleNode_prunings_of_ok (hs : s.anyOf = []) (ht : s.strictTypes = .ok types) :
    (assembleNode path s (compileProperties path s.required s.properties)
      (compileItems path s.items)).prunings =
        prunedBelow path s.lookedAt ++ (s.pruning? path).toList := by
  have hexpressible : s.IsExpressible := exists_strictTypes_iff.1 ⟨types, ht⟩
  have hkept : (if s.types.contains "object" then compileProperties path s.required s.properties
      else ⟨[], []⟩).prunings = prunedBelow path
        (if s.types.contains "object" then s.properties.map fun p => (.property p.1, p.2)
          else []) := by
    split_ifs
    · exact compileProperties_prunings_eq path s.required s.properties
    · rfl
  unfold assembleNode
  rw [ht, lookedAt_node hs hexpressible, prunedBelow_append, pruning?,
    reason?_of_isExpressible hs hexpressible, ← hkept]
  dsimp only
  rw [contains_object_of_strictTypes ht, contains_array_of_strictTypes ht]
  by_cases hempty : s.types.contains "object" ∧ ¬ ∃ c ∈ s.propertySchemas, (compile c).isSome
  · -- an object without properties is dropped before its items are looked at
    have hnil := not_not.1 (mt (exists_property_iff path s).2 hempty.2)
    have hfaults : s.objectFaults = [.noProperty] := if_pos hempty
    have hitems : ¬ s.LooksAtItems := fun h => hempty.2 (h.2 hempty.1)
    rw [hfaults, if_neg hitems, if_pos hempty.1, hnil, List.isEmpty_nil, hempty.1]
    exact congrArg (· ++ _) (List.append_nil _).symm
  · have hfaults : s.objectFaults = [] := if_neg hempty
    have hgoes : ¬ (s.types.contains "object" &&
        (if s.types.contains "object" then compileProperties path s.required s.properties
          else ⟨[], []⟩).value.isEmpty) = true := by
      rw [Bool.and_eq_true]
      rintro ⟨hobject, hnil⟩
      rw [if_pos hobject, List.isEmpty_iff] at hnil
      exact hempty ⟨hobject, fun hsome => (exists_property_iff path s).1 hsome hnil⟩
    rw [hfaults, if_neg hgoes, List.head?_nil, Option.none_or]
    by_cases harray : s.types.contains "array"
    · have hitems : s.LooksAtItems :=
        ⟨harray, fun hobject => not_not.1 fun hnone => hempty ⟨hobject, hnone⟩⟩
      rw [if_pos harray, if_pos hitems, withItems_prunings_eq, head?_arrayFaults path harray,
        compileItems_prunings_eq]
      cases (compileItems path s.items).value <;> rfl
    · have hitems : ¬ s.LooksAtItems := fun h => harray h.1
      have harrayFaults : s.arrayFaults = [] := if_neg fun h => harray h.1
      rw [if_neg harray, if_neg hitems, harrayFaults]
      simp [prunedBelow]

/-- What is recorded of a node is what is recorded of the children that it looks at, and then its
own reason. -/
theorem compileAt_prunings_eq (path : Path) (s : Schema) :
    (compileAt path s).prunings = prunedBelow path s.lookedAt ++ (s.pruning? path).toList := by
  rw [compileAt_eq]
  by_cases hs : s.anyOf = []
  · rw [if_pos (List.isEmpty_iff.2 hs)]
    cases ht : s.strictTypes with
    | ok types => exact assembleNode_prunings_of_ok hs ht
    | error reason =>
      have hruledOut : ¬ s.IsExpressible := by
        rw [← exists_strictTypes_iff, ht]
        rintro ⟨types, h⟩
        cases h
      rw [assembleNode, ht, lookedAt_eq_nil hs hruledOut, pruning?,
        reason?_of_strictTypes_error hs ht]
      rfl
  · have hkept : (∃ c ∈ s.anyOf, (compile c).isSome) ↔
        (compileAlternatives path 0 s.anyOf).value ≠ [] := by
      rw [compileAlternatives_eq, value_collect_indexed, filterMap_compile_ne_nil_iff]
    have hbelow : (compileAlternatives path 0 s.anyOf).prunings = prunedBelow path s.lookedAt := by
      rw [compileAlternatives_eq, prunings_collect_zipIdx, lookedAt_choice hs]
    rw [if_neg (mt List.isEmpty_iff.1 hs), assembleChoice, pruning?, reason?_choice hs, ← hbelow]
    by_cases hnil : (compileAlternatives path 0 s.anyOf).value = []
    · rw [if_pos (List.isEmpty_iff.2 hnil), if_neg fun hsome => hkept.1 hsome hnil]
      rfl
    · rw [if_neg (mt List.isEmpty_iff.1 hnil), if_pos (hkept.2 hnil)]
      exact (List.append_nil _).symm

end Node

/-! ## The whole record -/

/-- What is recorded is one pruning for each node without a form that is looked at. -/
theorem compileAt_prunings_eq_visits (path : Path) (s : Schema) :
    (compileAt path s).prunings = (s.visitsAt path).filterMap fun v => v.2.pruning? v.1 := by
  induction s using childInduction generalizing path with
  | _ s ih =>
    have hbelow : prunedBelow path s.lookedAt =
        (s.lookedAt.flatMap fun x => x.2.visitsAt (path ++ [x.1])).filterMap
          fun v => v.2.pruning? v.1 := by
      rw [List.filterMap_flatMap]
      exact List.flatMap_congr fun x hx => ih x.2 (.of_mem_lookedAt hx) _
    rw [compileAt_prunings_eq, visitsAt_eq, List.filterMap_append, ← hbelow]
    cases hs : s.pruning? path <;> simp [hs]

theorem path_ne_nil_of_mem_prunedBelow {path : Path} {steps : List (Step × Schema)} {p : Pruning}
    (h : p ∈ prunedBelow path steps) : p.path ≠ [] := by
  obtain ⟨x, -, hp⟩ := List.mem_flatMap.1 h
  rw [compileAt_prunings] at hp
  obtain ⟨q, -, rfl⟩ := List.mem_map.1 hp
  simp [Pruning.under]

/-- The root has the shortest text of all paths. -/
theorem Path.text_eq_root_iff {path : Path} : path.text = "#" ↔ path = [] := by
  have hroot : "#" = String.ofList ['#'] := rfl
  rw [text, hroot, String.ofList_inj, List.cons.injEq, and_iff_right rfl, List.flatMap_eq_nil_iff]
  constructor
  · intro h
    cases path with
    | nil => rfl
    | cons step path =>
      have hstep := h step List.mem_cons_self
      cases step <;> cases hstep
  · rintro rfl
    exact nofun

/-- A schema has no form exactly if the last thing recorded is the root. -/
theorem compile_eq_none_iff_getLast? (s : Schema) :
    compile s = none ↔ ∃ p, (prunings s).getLast? = some p ∧ p.path.text = "#" := by
  have hall : prunings s = prunedBelow [] s.lookedAt ++ (s.pruning? []).toList :=
    compileAt_prunings_eq [] s
  rw [hall]
  cases hreason : s.reason? with
  | none =>
    have hform : (compile s).isSome := reason?_eq_none_iff.1 hreason
    rw [pruning?, hreason, Option.map_none, Option.toList_none, List.append_nil]
    refine iff_of_false (Option.isSome_iff_ne_none.1 hform) ?_
    rintro ⟨p, hp, hroot⟩
    exact path_ne_nil_of_mem_prunedBelow (List.mem_of_getLast? hp) (Path.text_eq_root_iff.1 hroot)
  | some reason =>
    have hform : ¬ (compile s).isSome := by
      rw [← reason?_eq_none_iff, hreason]
      exact Option.some_ne_none reason
    rw [pruning?, hreason]
    refine iff_of_true (Option.not_isSome_iff_eq_none.1 hform) ⟨⟨[], reason⟩, ?_, rfl⟩
    exact List.getLast?_concat

/-- The prunings are the nodes without a form among those that are looked at, children before their
node, each with what is found wrong with it first. So there is no form exactly if the root is the
last of them, and no child that is looked at is dropped without being among them. -/
theorem prunings_exact (s : Schema) :
    prunings s = (s.visits.filterMap fun v => v.2.reason?.map (Pruning.mk v.1)) ∧
      (∀ c : Schema, c.reason? = none ↔ (compile c).isSome) ∧
      (compile s = none ↔ ∃ p, (prunings s).getLast? = some p ∧ p.path.text = "#") ∧
      ∀ path n, (path, n) ∈ s.visits → ∀ step c, (step, c) ∈ n.lookedAt → compile c = none →
        ∃ reason, c.reason? = some reason ∧ ⟨path ++ [step], reason⟩ ∈ prunings s := by
  have hall := compileAt_prunings_eq_visits [] s
  refine ⟨hall, fun c => reason?_eq_none_iff, compile_eq_none_iff_getLast? s, ?_⟩
  intro path n hn step c hc hform
  have hreason : c.reason? ≠ none := by
    rw [ne_eq, reason?_eq_none_iff, hform]
    exact Bool.false_ne_true
  obtain ⟨reason, hreason⟩ := Option.ne_none_iff_exists'.1 hreason
  refine ⟨reason, hreason, ?_⟩
  show _ ∈ (compileAt [] s).prunings
  rw [hall]
  refine List.mem_filterMap.2 ⟨(path ++ [step], c), mem_visitsAt_child hn hc, ?_⟩
  rw [pruning?, hreason]
  rfl

end StrictSchema
