import Mathlib.Tactic.SplitIfs
import StrictSchema.Compilation.Compile
import StrictSchema.Proofs.Schema.Nodes

/-!
# Compilation away from the root

The pass over a schema is told where the schema stands, and this place only shows in the paths of
the prunings: compiling at `path` is compiling at the root, with `path` put in front of every
pruning (`compileAt_eq_under`). So `compile` and `prunings` say all about the pass at any place
(`compileAt_value`, `compileAt_prunings`). The passes over lists of children are put together from
the passes over the single children by `Traced.collect`.
-/

namespace StrictSchema

/-- The pruning as it is recorded when the root of the schema stands at `path`. -/
def Pruning.under (path : Path) (p : Pruning) : Pruning := { p with path := path ++ p.path }

namespace Traced

variable {α : Type}

/-- The result with all its prunings moved below `path`. -/
def under (path : Path) (t : Traced α) : Traced α := ⟨t.value, t.prunings.map (Pruning.under path)⟩

/-- The values that are there, with all prunings in order. -/
def collect (ts : List (Traced (Option α))) : Traced (List α) :=
  ⟨ts.filterMap value, ts.flatMap Traced.prunings⟩

theorem collect_nil : collect ([] : List (Traced (Option α))) = ⟨[], []⟩ := rfl

theorem collect_cons (t : Traced (Option α)) (ts : List (Traced (Option α))) :
    collect (t :: ts) = t.consSome (collect ts) := by
  rcases t with ⟨_ | x, prunings⟩ <;> simp [collect, consSome]

theorem collect_map_under (path : Path) (ts : List (Traced (Option α))) :
    collect (ts.map (under path)) = (collect ts).under path := by
  simp [collect, under, List.filterMap_map, List.flatMap_map, List.map_flatMap, Function.comp_def]

theorem value_under (path : Path) (t : Traced α) : (t.under path).value = t.value := rfl

theorem under_drop (path here : Path) (t : Traced α) (reason : Reason) :
    (t.under path).drop (path ++ here) reason = (t.drop here reason).under path := by
  simp [under, drop, Pruning.under]

theorem under_asProperty (path : Path) (name : String) (isRequired : Bool)
    (t : Traced (Option Schema)) :
    (t.under path).asProperty name isRequired = (t.asProperty name isRequired).under path := rfl

end Traced

open Traced

/-! ## The pass over children -/

theorem compileAt_eq (path : Path) (s : Schema) :
    compileAt path s =
      if s.anyOf.isEmpty then
        assembleNode path s (compileProperties path s.required s.properties)
          (compileItems path s.items)
      else assembleChoice path (compileAlternatives path 0 s.anyOf) := by
  cases s
  rw [compileAt]

theorem compileAlternatives_eq (path : Path) (index : Nat) (ss : List Schema) :
    compileAlternatives path index ss =
      collect ((ss.zipIdx index).map fun x => compileAt (path ++ [.alternative x.2]) x.1) := by
  induction ss generalizing index with
  | nil => rw [compileAlternatives, List.zipIdx_nil, List.map_nil, collect_nil]
  | cons s rest ih => rw [compileAlternatives, List.zipIdx_cons, List.map_cons, collect_cons, ih]

theorem compileElements_eq (path : Path) (index : Nat) (ss : List Schema) :
    compileElements path index ss =
      collect ((ss.zipIdx index).map fun x => compileAt (path ++ [.element x.2]) x.1) := by
  induction ss generalizing index with
  | nil => rw [compileElements, List.zipIdx_nil, List.map_nil, collect_nil]
  | cons s rest ih => rw [compileElements, List.zipIdx_cons, List.map_cons, collect_cons, ih]

theorem compileProperties_eq (path : Path) (required : List String)
    (ps : List (String × Schema)) :
    compileProperties path required ps =
      collect (ps.map fun p =>
        (compileAt (path ++ [.property p.1]) p.2).asProperty p.1 (required.contains p.1)) := by
  induction ps with
  | nil => rw [compileProperties, List.map_nil, collect_nil]
  | cons p rest ih => rw [compileProperties, List.map_cons, collect_cons, ih]

/-! ## Moving the root -/

theorem assembleChoice_under (path here : Path) (kept : Traced (List Schema)) :
    assembleChoice (path ++ here) (kept.under path) = (assembleChoice here kept).under path := by
  unfold assembleChoice
  rw [value_under]
  split_ifs with h
  · exact under_drop path here kept .noAlternative
  · rfl

theorem withItems_under (path here : Path) (s : Schema) (types : TypeTags)
    (kept : Traced (List (String × Schema))) (items : Traced (Except Reason (Items Schema))) :
    withItems (path ++ here) s types (kept.under path) (items.under path) =
      (withItems here s types kept items).under path := by
  have hboth : (kept.under path).followedBy (items.under path) =
      (kept.followedBy items).under path := by
    simp [under, followedBy]
  unfold withItems
  rw [hboth]
  rcases items with ⟨reason | items, prunings⟩
  · exact under_drop path here (kept.followedBy ⟨Except.error reason, prunings⟩) reason
  · rfl

theorem assembleNode_under (path here : Path) (s : Schema)
    (properties : Traced (List (String × Schema))) (items : Traced (Except Reason (Items Schema))) :
    assembleNode (path ++ here) s (properties.under path) (items.under path) =
      (assembleNode here s properties items).under path := by
  unfold assembleNode
  cases s.strictTypes with
  | error reason => rfl
  | ok types =>
    have hkept : (if types.contains "object" then properties.under path else ⟨[], []⟩) =
        (if types.contains "object" then properties else ⟨[], []⟩).under path := by
      split_ifs <;> rfl
    simp only [hkept, value_under]
    generalize (if types.contains "object" then properties else ⟨[], []⟩) = kept
    split_ifs with hempty harray
    · exact under_drop path here kept .noProperty
    · exact withItems_under path here s types kept items
    · rfl

theorem assembleItem_under (path : Path) (t : Traced (Option Schema)) :
    assembleItem (t.under path) = (assembleItem t).under path := by
  rcases t with ⟨_ | s, prunings⟩ <;> rfl

theorem assembleTuple_under (path : Path) (kept : Traced (List Schema)) :
    assembleTuple (kept.under path) = (assembleTuple kept).under path := by
  unfold assembleTuple
  rw [value_under]
  split_ifs <;> rfl

theorem collect_indexed_under (step : Nat → Step) (path here : Path) {ss : List Schema}
    (h : ∀ s ∈ ss, ∀ here, compileAt (path ++ here) s = (compileAt here s).under path) :
    collect ((ss.zipIdx 0).map fun x => compileAt (path ++ here ++ [step x.2]) x.1) =
      (collect ((ss.zipIdx 0).map fun x => compileAt (here ++ [step x.2]) x.1)).under path := by
  rw [← collect_map_under, List.map_map]
  refine congrArg collect (List.map_congr_left fun x hx => ?_)
  rw [Function.comp_apply, List.append_assoc]
  exact h x.1 (List.fst_mem_of_mem_zipIdx hx) _

theorem compileAt_append (path here : Path) (s : Schema) :
    compileAt (path ++ here) s = (compileAt here s).under path := by
  induction s using Schema.childInduction generalizing here with
  | _ s ih =>
    have halternatives : compileAlternatives (path ++ here) 0 s.anyOf =
        (compileAlternatives here 0 s.anyOf).under path := by
      rw [compileAlternatives_eq, compileAlternatives_eq]
      exact collect_indexed_under .alternative path here fun c hc => ih c (.alternative hc)
    have hproperties : compileProperties (path ++ here) s.required s.properties =
        (compileProperties here s.required s.properties).under path := by
      rw [compileProperties_eq, compileProperties_eq, ← collect_map_under, List.map_map]
      refine congrArg collect (List.map_congr_left fun p hp => ?_)
      rw [Function.comp_apply, List.append_assoc, ← under_asProperty, ih p.2 (.property hp)]
    have hitems : compileItems (path ++ here) s.items = (compileItems here s.items).under path := by
      cases hs : s.items with
      | none => simp only [compileItems]; rfl
      | some items =>
        cases items with
        | single c =>
          rw [compileItems, compileItems, List.append_assoc, ih c (.item hs), assembleItem_under]
        | tuple cs =>
          have helements : compileElements (path ++ here) 0 cs =
              (compileElements here 0 cs).under path := by
            rw [compileElements_eq, compileElements_eq]
            exact collect_indexed_under .element path here fun c hc => ih c (.element hs hc)
          rw [compileItems, compileItems, helements, assembleTuple_under]
    rw [compileAt_eq, compileAt_eq, halternatives, hproperties, hitems, assembleNode_under,
      assembleChoice_under]
    split_ifs <;> rfl

/-- The pass below `path` is the pass from the root, moved there. -/
theorem compileAt_eq_under (path : Path) (s : Schema) :
    compileAt path s = (compileAt [] s).under path := by
  have := compileAt_append path [] s
  rwa [List.append_nil] at this

theorem compileAt_value (path : Path) (s : Schema) : (compileAt path s).value = compile s := by
  rw [compileAt_eq_under]
  rfl

theorem compileAt_prunings (path : Path) (s : Schema) :
    (compileAt path s).prunings = (prunings s).map (Pruning.under path) := by
  rw [compileAt_eq_under]
  rfl

end StrictSchema
