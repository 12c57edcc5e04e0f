import StrictSchema.Command.Run
import StrictSchema.Proofs.Compilation.FixedPoints
import StrictSchema.Proofs.Json.ReadBack
import StrictSchema.Proofs.Schema.DistinctNames

/-!
# The compiled text of a document

`artefact format text` is what compiling a document prints: the text is read, decoded and compiled,
and the form is rendered (`runCompile_eq`). The printed text is stable (`artefact_stable`): it is a
document whose form is itself, so compiling it again prints it again, and with the other format it
prints what the first document prints. Behind this stand that the form repeats no name
(`namesOnce_of_compile`), so that its text reads back as it is, and that it is in the dialect, so
that it is decoded and compiled to itself.
-/

namespace StrictSchema

/-! ## The pipeline -/

/-- The form of the schema that a text holds. -/
def compileText (text : String) : Except DocumentError (Option Schema) :=
  (Json.decodeText Schema.decode text).map compile

/-- The text of that form. -/
def artefact (format : Json.Format) (text : String) : Except DocumentError (Option String) :=
  (compileText text).map (Option.map fun r => r.encode.render format)

/-- The steps of the pipeline, of which the first that fails decides. -/
theorem compileText_eq (text : String) :
    compileText text =
      match Json.read text with
      | .error e => .error (.malformed e)
      | .ok v =>
        match Schema.decode v with
        | .error e => .error (.mismatched e)
        | .ok s => .ok (compile s) := by
  unfold compileText Json.decodeText Json.readText
  cases Json.read text with
  | error e => rfl
  | ok v =>
    show ((Schema.decode v).mapError DocumentError.mismatched).map compile =
      match Schema.decode v with
      | .error e => .error (.mismatched e)
      | .ok s => .ok (compile s)
    cases Schema.decode v <;> rfl

/-- Compiling a file prints the artefact of its text, and fails where there is none. -/
theorem runCompile_eq {settings : Settings} {files : FileTree} {path text : String}
    (read : files.readText path = .ok text) :
    runCompile settings files path none =
      match artefact settings.output.format text with
      | .ok (some output) => .ok { output := output ++ "\n", files }
      | .ok none =>
        .ok {
          status := .failure
          errors := Text.concat ["❌ ", path, " cannot be used for AI generation\n"]
          files }
      | .error (.malformed e) => .error (.parsing path e)
      | .error (.mismatched e) => .error (.failed (.document (.mismatched e))) := by
  unfold runCompile FileTree.readSchema FileTree.readJson artefact Schema.ofJson
  rw [read, compileText_eq]
  dsimp only [Except.mapError, bind, Except.bind]
  cases Json.read text with
  | error e => rfl
  | ok v =>
    dsimp only
    cases Schema.decode v with
    | error e => rfl
    | ok s =>
      dsimp only
      cases compile s <;> rfl

/-! ## Names in the form -/

theorem Schema.NamesOnce.withNull {s : Schema} (h : s.NamesOnce) : s.withNull.NamesOnce := by
  by_cases choice : s.anyOf = []
  · rw [withNull_node choice]
    obtain ⟨names, examples, anyOf, properties, items⟩ := h
    exact .intro names examples anyOf properties items
  · rw [withNull_choice choice]
    split
    · exact h
    · obtain ⟨names, examples, anyOf, properties, items⟩ := h
      refine .intro names examples ?_ properties items
      exact List.forall_mem_append.2 ⟨anyOf, List.forall_mem_singleton.2
        (namesOnce_of_bare rfl rfl rfl rfl)⟩

theorem names_propertyForm_sublist (required : List String) (ps : List (String × Schema)) :
    (Members.names (ps.filterMap (propertyForm required))).Sublist (Members.names ps) := by
  induction ps with
  | nil => exact List.Sublist.refl _
  | cons p ps ih =>
    cases form : compile p.2 with
    | none =>
      rw [List.filterMap_cons_none (by rw [propertyForm, form]; rfl)]
      exact ih.cons _
    | some c =>
      rw [List.filterMap_cons_some (by rw [propertyForm, form]; rfl)]
      exact ih.cons_cons _

/-- Compilation drops properties and keeps the names of the others. -/
theorem nodup_formProperties {s : Schema} {types : TypeTags}
    (names : (Members.names s.properties).Nodup) :
    (Members.names (s.formProperties types)).Nodup := by
  unfold Schema.formProperties
  split
  · exact (names_propertyForm_sublist s.required s.properties).nodup names
  · exact List.nodup_nil

open Schema in
theorem namesOnce_of_compile {s r : Schema} (h : compile s = some r) (once : s.NamesOnce) :
    r.NamesOnce := by
  induction s using childInduction generalizing r with
  | _ s ih =>
    have children : ∀ c, r.IsChild c → c.NamesOnce := by
      intro c hc
      obtain ⟨d, e, hd, he, rfl | rfl⟩ := exists_of_isChild_form h hc
      · exact ih d hd he (once.child hd)
      · exact (ih d hd he (once.child hd)).withNull
    have own : (Members.names r.properties).Nodup ∧ ∀ e ∈ r.examples, e.DistinctNames := by
      by_cases hs : s.anyOf = []
      · obtain ⟨types, -, -, -, rfl⟩ := (compile_node_eq_some_iff hs).1 h
        exact ⟨nodup_formProperties once.names, once.examples⟩
      · obtain ⟨-, rfl⟩ := (compile_choice_eq_some_iff hs).1 h
        exact ⟨List.nodup_nil, nofun⟩
    exact .intro own.1 own.2 (fun c hc => children c (.alternative hc))
      (fun c hc => children c (.of_mem_propertySchemas hc))
      fun c hc => children c (.of_mem_itemSchemas hc)

/-! ## The artefact -/

section Artefact

variable {text : String} {r : Schema}

/-- What a text whose form is `r` was read and compiled from. -/
theorem exists_of_compileText (h : compileText text = .ok (some r)) :
    ∃ v s, Json.read text = .ok v ∧ Schema.decode v = .ok s ∧ compile s = some r := by
  rw [compileText_eq] at h
  cases parsed : Json.read text with
  | error e =>
    rw [parsed] at h
    cases h
  | ok v =>
    rw [parsed] at h
    cases decoded : Schema.decode v with
    | error e =>
      simp only [decoded] at h
      cases h
    | ok s =>
      simp only [decoded] at h
      exact ⟨v, s, rfl, decoded, Except.ok.inj h⟩

/-- The form of a text is in the dialect and names each property once. -/
theorem distinctNames_of_compileText (h : compileText text = .ok (some r)) :
    r.encode.DistinctNames := by
  obtain ⟨v, s, parsed, decoded, compiled⟩ := exists_of_compileText h
  have once := Schema.namesOnce_of_decode (Json.distinctNames_of_read parsed) decoded
  exact (inDialect_of_compile compiled).distinctNames (namesOnce_of_compile compiled once)

/-- The text of a form has that form, if it is not nested too deep to be read. -/
theorem compileText_render (h : compileText text = .ok (some r))
    (depth : r.encode.depth ≤ Json.depthLimit) (format : Json.Format) :
    compileText (r.encode.render format) = .ok (some r) := by
  obtain ⟨v, s, -, -, compiled⟩ := exists_of_compileText h
  have dialect := inDialect_of_compile compiled
  have read := Json.read_render format depth (distinctNames_of_compileText h)
  have decoded := dialect.isDocument.decode_encode_eq
  rw [compileText_eq, read]
  simp only [decoded, dialect.compile_eq]

theorem artefact_of_compileText (h : compileText text = .ok (some r)) (format : Json.Format) :
    artefact format text = .ok (some (r.encode.render format)) := by
  unfold artefact
  rw [h]
  rfl

/-- The artefact of a text is its own artefact, and in another format it has the artefact that the
text has, if its form is not nested too deep to be read. -/
theorem artefact_stable (h : compileText text = .ok (some r))
    (depth : r.encode.depth ≤ Json.depthLimit) (format other : Json.Format) :
    artefact format text = .ok (some (r.encode.render format)) ∧
      artefact format (r.encode.render format) = .ok (some (r.encode.render format)) ∧
      artefact other (r.encode.render format) = artefact other text := by
  have again := compileText_render h depth format
  refine ⟨artefact_of_compileText h format, artefact_of_compileText again format, ?_⟩
  rw [artefact_of_compileText again other, artefact_of_compileText h other]

end Artefact

/-- A document with an optional number, a name and a bound that are spelled in a roundabout way. -/
def roundaboutText : String :=
  "\x7b\"type\": \"object\", \"properties\": " ++
    "\x7b\"\\u0061\": \x7b\"type\": \"number\", \"maximum\": 25e-1\x7d\x7d\x7d"

/-- What is printed for `roundaboutText`. -/
def directText : String :=
  "\x7b\"type\":\"object\"," ++
    "\"properties\":\x7b\"a\":\x7b\"type\":[\"number\",\"null\"],\"maximum\":2.5\x7d\x7d," ++
    "\"required\":[\"a\"],\"additionalProperties\":\x7b\"not\":\x7b\x7d\x7d\x7d"

theorem artefact_stable_roundaboutText :
    ∃ r, compileText roundaboutText = .ok (some r) ∧ r.encode.depth ≤ Json.depthLimit ∧
      artefact .compact roundaboutText = .ok (some directText) ∧
      artefact .compact directText = .ok (some directText) ∧
      artefact .pretty directText = artefact .pretty roundaboutText := by
  have check : (compileText roundaboutText).toOption.join.any (fun r =>
      decide (r.encode.depth ≤ Json.depthLimit) && r.encode.render .compact == directText) =
        true := by
    decide +kernel
  obtain ⟨r, found, good⟩ := (Option.any_eq_true ..).1 check
  have compiled : compileText roundaboutText = .ok (some r) := by
    have found := Option.join_eq_some_iff.1 found
    cases outcome : compileText roundaboutText with
    | error e =>
      rw [outcome] at found
      cases found
    | ok form =>
      rw [outcome] at found
      exact congrArg Except.ok (Option.some.inj found)
  obtain ⟨depth, printed⟩ := Bool.and_eq_true_iff.1 good
  have depth := of_decide_eq_true depth
  have stable := artefact_stable compiled depth .compact .pretty
  rw [beq_iff_eq.1 printed] at stable
  exact ⟨r, compiled, depth, stable⟩

end StrictSchema
