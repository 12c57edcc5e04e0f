import StrictSchema.Proofs.Compilation.UnseenChanges
import StrictSchema.Proofs.Schema.Abbreviations

/-!
# Compiling documents with booleans

The pass over a node sees of its parts only what the pass makes of them, and nothing at all of what
stands under `additionalProperties` (`Schema.Alike.compileAt_eq`). So booleans in the place of
schemas, which are read as what they abbreviate, can be written out under `additionalProperties`,
too, where they are read as booleans (`booleans_abbreviate`).
-/

namespace StrictSchema

open Json Schema

/-! ## What the pass sees -/

section Lists

variable {path : Path}

theorem collect_indexed_of_map_eq {ss ts : List Schema}
    (same : ss.map (compileAt []) = ts.map (compileAt [])) (step : Nat → Step) (index : Nat) :
    Traced.collect ((ss.zipIdx index).map fun x => compileAt (path ++ [step x.2]) x.1) =
      Traced.collect ((ts.zipIdx index).map fun x => compileAt (path ++ [step x.2]) x.1) := by
  have pass (ss : List Schema) :
      (ss.zipIdx index).map (fun x => compileAt (path ++ [step x.2]) x.1) =
        ((ss.map (compileAt [])).zipIdx index).map fun x => x.1.under (path ++ [step x.2]) := by
    rw [List.zipIdx_map, List.map_map]
    exact List.map_congr_left fun x _ => compileAt_eq_under _ x.1
  rw [pass, pass, same]

theorem compileProperties_of_map_eq {ps qs : List (String × Schema)}
    (same : ps.map (Prod.map id (compileAt [])) = qs.map (Prod.map id (compileAt [])))
    (required : List String) :
    compileProperties path required ps = compileProperties path required qs := by
  have pass (ps : List (String × Schema)) : compileProperties path required ps =
      Traced.collect ((ps.map (Prod.map id (compileAt []))).map fun p =>
        (p.2.under (path ++ [.property p.1])).asProperty p.1 (required.contains p.1)) := by
    rw [compileProperties_eq, List.map_map]
    refine congrArg Traced.collect (List.map_congr_left fun p _ => ?_)
    rw [compileAt_eq_under]
    rfl
  rw [pass, pass, same]

theorem compileItems_of_map_eq {items others : Option (Items Schema)}
    (same : items.map (Items.map (compileAt [])) = others.map (Items.map (compileAt []))) :
    compileItems path items = compileItems path others := by
  rcases items with _ | s | ss <;> rcases others with _ | t | ts
  case none.none => rfl
  case some.single.some.single =>
    have same : compileAt [] s = compileAt [] t := Items.single.inj (Option.some.inj same)
    rw [compileItems, compileItems, compileAt_eq_under, compileAt_eq_under (s := t), same]
  case some.tuple.some.tuple =>
    have same : ss.map (compileAt []) = ts.map (compileAt []) :=
      Items.tuple.inj (Option.some.inj same)
    rw [compileItems, compileItems, compileElements_eq, compileElements_eq,
      collect_indexed_of_map_eq same .element]
  all_goals cases same

end Lists

/-- Nodes that are alike to the pass over their parts are alike to the pass. -/
theorem Schema.Alike.compileAt_eq {s t : Schema} (h : Alike True (compileAt []) s t) :
    compileAt [] s = compileAt [] t := by
  have forbidden : s.forbiddenKeywords = t.forbiddenKeywords := by
    have isSome {α β : Type} {g : α → β} {x y : Option α} (same : x.map g = y.map g) :
        x.isSome = y.isSome := by
      rw [← Option.isSome_map (f := g), same, Option.isSome_map]
    simp only [forbiddenKeywords, h.const, isSome h.contains, h.uniqueItems, h.deprecated,
      h.readOnly, isSome h.patternProperties, isSome h.additionalItems, isSome h.allOf,
      isSome h.oneOf, isSome h.prefixItems]
  have strict : s.strictTypes = t.strictTypes :=
    strictTypes_congr (congrArg TypeTags.resolve h.types) forbidden h.format
  have rebuild : s.rebuild = t.rebuild := by
    funext types properties items
    simp only [Schema.rebuild, usedFormat, h.limits, h.format, h.examples]
  have choice : s.anyOf.isEmpty = t.anyOf.isEmpty := by
    rw [← List.isEmpty_map (f := compileAt []), h.anyOf, List.isEmpty_map]
  rw [StrictSchema.compileAt_eq, StrictSchema.compileAt_eq, choice, compileAlternatives_eq,
    compileAlternatives_eq, collect_indexed_of_map_eq h.anyOf .alternative, h.required,
    compileProperties_of_map_eq h.properties, compileItems_of_map_eq h.items,
    assembleNode_congr strict rebuild (fun _ => rfl) fun _ => rfl]

/-! ## Documents -/

/-- The form of the schema that a value holds, with what is dropped on the way. -/
def compileJson (v : Json) : Except CommandError (Option Schema × List Pruning) :=
  (Schema.ofJson v).map fun s => (compile s, prunings s)

theorem compileJson_eq (v : Json) : compileJson v =
    (((decode v).map (compileAt [])).map fun t => (t.value, t.prunings)).mapError
      fun e => .failed (.document (.mismatched e)) := by
  unfold compileJson Schema.ofJson
  cases decode v <;> rfl

theorem compileJson_of_writesOut {v w : Json} (h : Json.WritesOut True v w) :
    compileJson v = compileJson w := by
  induction h with
  | refl => rfl
  | tail _ out ih =>
    have same : (decode _).map (compileAt []) = (decode _).map (compileAt []) :=
      readAlike_of_writesOut (fun _ _ alike => alike.compileAt_eq) out
    rw [ih, compileJson_eq, compileJson_eq, same]

/-- Booleans in the place of schemas are abbreviations: whichever of them are written out, the
document is decoded as before. For compilation those under `additionalProperties` can be written out
as well. -/
theorem booleans_abbreviate :
    (∀ v w, Json.WritesOut False v w → decode w = decode v) ∧
    ∀ v w, Json.WritesOut True v w → compileJson w = compileJson v :=
  ⟨fun _ _ out => (decode_of_writesOut out).symm,
    fun _ _ out => (compileJson_of_writesOut out).symm⟩

/-- An object with a string and a second member. It may have any values under `any`, under `not` and
under `additionalProperties`. -/
def switches (any not additional : Json) : Json :=
  .object [("type", .string "object"),
    ("properties", .object [("ok", .object [("type", .string "string")]), ("any", any)]),
    ("not", not), ("additionalProperties", additional)]

/-- What false abbreviates. -/
def negation : Json := .object [("not", .object [])]

theorem writesOut_switches (everywhere : Prop) (additional : Json) :
    Json.WritesOut everywhere (switches (.bool true) (.bool false) additional)
      (switches (.object []) negation additional) := by
  have any : Shape.WritesOut everywhere .schema (switches (.bool true) (.bool false) additional)
      (switches (.object []) (.bool false) additional) :=
    .member [_] _ (k := .properties) rfl nofun (.value [_] [] .always)
  have not : Shape.WritesOut everywhere .schema (switches (.object []) (.bool false) additional)
      (switches (.object []) negation additional) :=
    .member [_, _] _ (k := .not) rfl nofun (.present .never)
  exact .tail (.single any) not

theorem booleans_abbreviate_switches :
    decode (switches (.object []) negation (.bool false)) =
        decode (switches (.bool true) (.bool false) (.bool false)) ∧
      compileJson (switches (.object []) negation negation) =
        compileJson (switches (.bool true) (.bool false) (.bool false)) ∧
      decode (switches (.object []) negation negation) ≠
        decode (switches (.object []) negation (.bool false)) := by
  have additional : Shape.WritesOut True .schema (switches (.object []) negation (.bool false))
      (switches (.object []) negation negation) :=
    .member [_, _, _] [] (k := .additionalProperties) rfl
      (fun _ => .inl trivial) (.present .never)
  refine ⟨booleans_abbreviate.1 _ _ (writesOut_switches False _),
    booleans_abbreviate.2 _ _ (.tail (writesOut_switches True _) additional), fun same => ?_⟩
  nomatch congrArg Schema.additionalProperties (Except.ok.inj same)

end StrictSchema
