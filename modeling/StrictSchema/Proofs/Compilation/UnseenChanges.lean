import StrictSchema.Proofs.Compilation.Forms
import StrictSchema.Proofs.Schema.Contexts

/-!
# Changes that compilation does not see

Much of a node is dropped without a look at it: unknown keywords, `not`, `additionalProperties`, the
schemas under forbidden keywords, types that structured output does not know, required names that
are no properties, properties of what is no object, items of what is no array, and whatever stands
beside alternatives. A change of these parts of one node (`Schema.UnseenChange`) leaves the pass
over the node as it is (`compileAt_of_unseenChange`), and so do any number of such changes at any
places of a schema (`Schema.UnseenChanges`).
-/

namespace StrictSchema

namespace Schema

/-- A change of one node in a part that does not count. -/
inductive UnseenChange (s : Schema) : Schema → Prop where
  | extra (extra : List (String × Json)) : UnseenChange s { s with extra := extra }
  | not (not : Option Schema) : UnseenChange s { s with not := not }
  | additionalProperties (additionalProperties : Option (AdditionalProperties Schema)) :
      UnseenChange s { s with additionalProperties := additionalProperties }
  /-- A forbidden keyword has another value, but is neither added nor deleted. -/
  | forbidden {const : Option Json} {contains additionalItems : Option Schema}
      {patternProperties : Option (List (String × Schema))}
      {allOf oneOf prefixItems : Option (List Schema)} (hconst : const.isSome = s.const.isSome)
      (hcontains : contains.isSome = s.contains.isSome)
      (hpatternProperties : patternProperties.isSome = s.patternProperties.isSome)
      (hadditionalItems : additionalItems.isSome = s.additionalItems.isSome)
      (hallOf : allOf.isSome = s.allOf.isSome) (honeOf : oneOf.isSome = s.oneOf.isSome)
      (hprefixItems : prefixItems.isSome = s.prefixItems.isSome) :
      UnseenChange s { s with
        const := const, contains := contains, additionalItems := additionalItems
        patternProperties := patternProperties, allOf := allOf, oneOf := oneOf
        prefixItems := prefixItems }
  /-- Types are added or deleted that structured output does not know. -/
  | types {types : TypeTags} (h : types.names.filter supportedTypes.contains =
      s.types.names.filter supportedTypes.contains) : UnseenChange s { s with types := types }
  /-- The same properties are required. -/
  | required {required : List String}
      (h : ∀ name ∈ Members.names s.properties, name ∈ required ↔ name ∈ s.required) :
      UnseenChange s { s with required := required }
  | noObject (h : s.types.contains "object" = false) (properties : List (String × Schema))
      (required : List String) :
      UnseenChange s { s with properties := properties, required := required }
  | noArray (h : s.types.contains "array" = false) (items : Option (Items Schema)) :
      UnseenChange s { s with items := items }
  /-- Only the alternatives stay. -/
  | choice {t : Schema} (hs : s.anyOf ≠ []) (h : t.anyOf = s.anyOf) : UnseenChange s t

/-- Any number of unseen changes, each at some place of the schema. -/
def UnseenChanges (s t : Schema) : Prop :=
  Relation.ReflTransGen
    (fun a b => ∃ (K : Context) (c d : Schema), c.UnseenChange d ∧ K.fill c = a ∧ K.fill d = b) s t

end Schema

open Schema

/-! ## One node -/

section Node

variable {path : Path} {s t : Schema}

/-- The work on a node depends on its properties only if it is an object, and on its items only if
it is an array. -/
theorem assembleNode_congr (strict : t.strictTypes = s.strictTypes)
    (rebuild : t.rebuild = s.rebuild) {ps qs : Traced (List (String × Schema))}
    {xs ys : Traced (Except Reason (Items Schema))}
    (properties : s.types.contains "object" → qs = ps)
    (items : s.types.contains "array" → ys = xs) :
    assembleNode path t qs ys = assembleNode path s ps xs := by
  unfold assembleNode
  rw [strict]
  cases ht : s.strictTypes with
  | error reason => rfl
  | ok types =>
    have kept : (if types.contains "object" then qs else ⟨[], []⟩) =
        if types.contains "object" then ps else ⟨[], []⟩ := by
      split_ifs with object
      · exact properties ((contains_object_of_strictTypes ht).symm.trans object)
      · rfl
    dsimp only
    rw [kept, rebuild]
    by_cases array : types.contains "array"
    · rw [items ((contains_array_of_strictTypes ht).symm.trans array)]
      unfold withItems
      rw [rebuild]
    · rw [if_neg array, if_neg array]

theorem compileProperties_congr {required others : List String} {ps : List (String × Schema)}
    (h : ∀ name ∈ Members.names ps, name ∈ others ↔ name ∈ required) :
    compileProperties path others ps = compileProperties path required ps := by
  have same : ∀ p ∈ ps, others.contains p.1 = required.contains p.1 := by
    intro p hp
    rw [Bool.eq_iff_iff, List.contains_iff_mem, List.contains_iff_mem]
    exact h p.1 (List.mem_map_of_mem hp)
  rw [compileProperties_eq, compileProperties_eq]
  exact congrArg Traced.collect (List.map_congr_left fun p hp => by rw [same p hp])

/-- A node is compiled from its alternatives or else from its types, from what goes into its form
unchanged, and from its properties and items as far as its types ask for them. -/
theorem compileAt_congr (anyOf : t.anyOf = s.anyOf) (strict : t.strictTypes = s.strictTypes)
    (rebuild : t.rebuild = s.rebuild)
    (properties : s.types.contains "object" → compileProperties path t.required t.properties =
      compileProperties path s.required s.properties)
    (items : s.types.contains "array" → compileItems path t.items = compileItems path s.items) :
    compileAt path t = compileAt path s := by
  rw [compileAt_eq, compileAt_eq, anyOf, assembleNode_congr strict rebuild properties items]

theorem strictTypes_congr (types : t.types.resolve = s.types.resolve)
    (forbidden : t.forbiddenKeywords = s.forbiddenKeywords) (format : t.format = s.format) :
    t.strictTypes = s.strictTypes := by
  unfold strictTypes forbidden? usedFormat
  rw [types, forbidden, format]

theorem TypeTags.resolve_congr {t u : TypeTags} (h : u.names.filter supportedTypes.contains =
    t.names.filter supportedTypes.contains) : u.resolve = t.resolve := by
  unfold resolve
  rw [h]

/-- The pass over a node is the same after a change of it that does not count. -/
theorem compileAt_of_unseenChange (h : s.UnseenChange t) (path : Path) :
    compileAt path t = compileAt path s := by
  cases h with
  | extra | not | additionalProperties =>
    exact compileAt_congr rfl rfl rfl (fun _ => rfl) fun _ => rfl
  | forbidden hconst hcontains hpatternProperties hadditionalItems hallOf honeOf hprefixItems =>
    refine compileAt_congr rfl (strictTypes_congr rfl ?_ rfl) rfl (fun _ => rfl) fun _ => rfl
    simp only [forbiddenKeywords, hconst, hcontains, hpatternProperties, hadditionalItems, hallOf,
      honeOf, hprefixItems]
  | types h =>
    exact compileAt_congr rfl (strictTypes_congr (TypeTags.resolve_congr h) rfl rfl) rfl
      (fun _ => rfl) fun _ => rfl
  | required h =>
    exact compileAt_congr rfl rfl rfl (fun _ => compileProperties_congr h) fun _ => rfl
  | noObject h =>
    refine compileAt_congr rfl rfl rfl (fun object => ?_) fun _ => rfl
    rw [h] at object
    cases object
  | noArray h =>
    refine compileAt_congr rfl rfl rfl (fun _ => rfl) fun array => ?_
    rw [h] at array
    cases array
  | choice hs h =>
    have choice : ¬ s.anyOf.isEmpty := mt List.isEmpty_iff.1 hs
    rw [compileAt_eq, compileAt_eq, h, if_neg choice, if_neg choice]

end Node

/-! ## Any place -/

/-- A node sees of its child only what the pass over it gives. -/
theorem Frame.compileAt_fill_congr (F : Frame) {c d : Schema}
    (h : ∀ path, compileAt path d = compileAt path c) (path : Path) :
    compileAt path (F.fill d) = compileAt path (F.fill c) := by
  cases F with
  | alternative s before after =>
    have alternatives : compileAlternatives path 0 (before ++ d :: after) =
        compileAlternatives path 0 (before ++ c :: after) := by
      simp only [compileAlternatives_eq, List.zipIdx_append, List.zipIdx_cons, List.map_append,
        List.map_cons, h]
    have choice (e : Schema) : ¬ ((alternative s before after).fill e).anyOf.isEmpty := by
      simp [fill]
    rw [compileAt_eq, compileAt_eq, if_neg (choice d), if_neg (choice c)]
    exact congrArg (assembleChoice path) alternatives
  | property s before name after =>
    refine compileAt_congr rfl rfl rfl (fun _ => ?_) fun _ => rfl
    simp only [fill, compileProperties_eq, List.map_append, List.map_cons, h]
  | item s =>
    refine compileAt_congr rfl rfl rfl (fun _ => rfl) fun _ => ?_
    simp only [fill, compileItems, h]
  | element s before after =>
    refine compileAt_congr rfl rfl rfl (fun _ => rfl) fun _ => ?_
    simp only [fill, compileItems, compileElements_eq, List.zipIdx_append, List.zipIdx_cons,
      List.map_append, List.map_cons, h]

theorem Context.compileAt_fill_congr (K : Context) {c d : Schema}
    (h : ∀ path, compileAt path d = compileAt path c) (path : Path) :
    compileAt path (K.fill d) = compileAt path (K.fill c) := by
  induction K generalizing c d with
  | nil => exact h path
  | cons F K ih => exact ih (F.compileAt_fill_congr h)

/-- Schemas that differ only in parts that do not count have the same form and the same prunings. -/
theorem compile_of_unseenChanges {s t : Schema} (h : s.UnseenChanges t) :
    compile t = compile s ∧ prunings t = prunings s := by
  have same : compileAt [] t = compileAt [] s := by
    induction h with
    | refl => rfl
    | tail _ change ih =>
      obtain ⟨K, c, d, hcd, rfl, rfl⟩ := change
      exact (K.compileAt_fill_congr (compileAt_of_unseenChange hcd) []).trans ih
  unfold compile prunings
  exact ⟨congrArg Traced.value same, congrArg Traced.prunings same⟩

/-- An object with a string that has some unknown keywords, and with a constant. -/
def markedRow (names required : List String) (notes : List (String × Json)) (constant : Json) :
    Schema where
  types := .many names
  required := required
  properties := [("a", { ofType "string" with extra := notes }),
    ("b", { ofType "number" with const := some constant })]

theorem markedRow_unseenChanges :
    (markedRow ["money", "object"] ["old", "a", "a"] [("title", .string "A")] .null).UnseenChanges
      (markedRow ["object"] ["a"] [] (.bool true)) := by
  have types : (markedRow ["money", "object"] ["old", "a", "a"] [("title", .string "A")]
      .null).UnseenChange
      (markedRow ["object"] ["old", "a", "a"] [("title", .string "A")] .null) :=
    @UnseenChange.types _ (.many ["object"]) (by decide)
  have required : (markedRow ["object"] ["old", "a", "a"] [("title", .string "A")]
      .null).UnseenChange (markedRow ["object"] ["a"] [("title", .string "A")] .null) :=
    @UnseenChange.required _ ["a"] (by decide)
  have title : UnseenChange { ofType "string" with extra := [("title", .string "A")] }
      { ofType "string" with extra := [] } := .extra []
  have constant : UnseenChange { ofType "number" with const := some .null }
      { ofType "number" with const := some (.bool true) } :=
    @UnseenChange.forbidden _ (some (.bool true)) none none none none none none rfl rfl rfl rfl rfl
      rfl rfl
  exact (((Relation.ReflTransGen.single ⟨[], _, _, types, rfl, rfl⟩).tail
    ⟨[], _, _, required, rfl, rfl⟩).tail
    ⟨[.property (markedRow ["object"] ["a"] [] .null) []
      "a" [("b", { ofType "number" with const := some .null })]], _, _, title, rfl, rfl⟩).tail
    ⟨[.property (markedRow ["object"] ["a"] [] .null) [("a", ofType "string")] "b" []],
      _, _, constant, rfl, rfl⟩

theorem compile_markedRow :
    (markedRow ["money", "object"] ["old", "a", "a"] [("title", .string "A")] .null).UnseenChanges
        (markedRow ["object"] ["a"] [] (.bool true)) ∧
      compile (markedRow ["object"] ["a"] [] (.bool true)) =
        compile (markedRow ["money", "object"] ["old", "a", "a"] [("title", .string "A")] .null) ∧
      prunings (markedRow ["object"] ["a"] [] (.bool true)) =
        prunings (markedRow ["money", "object"] ["old", "a", "a"] [("title", .string "A")] .null) :=
  ⟨markedRow_unseenChanges, compile_of_unseenChanges markedRow_unseenChanges⟩

end StrictSchema
