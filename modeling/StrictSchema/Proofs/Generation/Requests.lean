import StrictSchema.Generation.Preparation
import StrictSchema.Proofs.Compilation.Artefact

/-!
# Requests on the wire

A request is read back as it was written if its schema is a document
(`GenerationRequest.decode_encode`), and it is written without a repeated name if its schema is
(`GenerationRequest.distinctNames_encode`), so that its text reads back too. A schema in the strict
dialect is a document, hence what `GenerationRequest.forModule` builds, for exactly the schemas that
have a form, survives the wire.
-/

namespace StrictSchema

open Json

/-! ## Records -/

namespace Record

variable {δ α : Type} {r : Record δ α} {draft next : δ}

theorem readMembers_cons {name : String} {v : Json} (known : name ∈ r.fields)
    (set : r.set draft name v = .ok next) (rest : List (String × Json)) :
    r.readMembers draft ((name, v) :: rest) = r.readMembers next rest := by
  rw [readMembers, if_pos (List.contains_iff_mem.2 known), set]
  rfl

theorem decodeWith_object (draft : δ) {members : List (String × Json)} {x : α}
    (read : r.readMembers r.start members = .ok draft) (finish : r.finish draft = .ok x)
    (excess : Nat → WantedLength) : r.decodeWith excess (.object members) = .ok x := by
  have finished : (r.finish draft).mapError DecodeError.missingField = .ok x := by
    rw [finish]
    rfl
  calc r.decodeWith excess (.object members)
      = (r.readMembers r.start members).bind fun d =>
          (r.finish d).mapError DecodeError.missingField := rfl
    _ = (r.finish draft).mapError DecodeError.missingField := by rw [read]; rfl
    _ = .ok x := finished

end Record

/-! ## Reading what was written -/

theorem ChatMessage.decode_encode (m : ChatMessage) : record.decode m.encode = .ok m := by
  obtain ⟨role, content⟩ := m
  cases role <;> rfl

theorem AnswerSchema.decodeTagged_encode {a : AnswerSchema} (h : a.schema.IsDocument) :
    record.decodeTagged a.encode = .ok a := by
  obtain ⟨name, description, schema, strict⟩ := a
  have setSchema (d : Draft) :
      record.set d "schema" schema.encode = .ok { d with schema := some schema } :=
    congrArg (Except.map _) h.decode_encode_eq
  -- the name is read before the schema, and so is the description if there is one
  cases description with
  | none =>
    refine Record.decodeWith_object ⟨some name, none, some schema, some strict⟩ ?_ rfl _
    exact Record.readMembers_cons (by decide) (setSchema ⟨some name, none, none, none⟩) _
  | some text =>
    refine Record.decodeWith_object ⟨some name, some text, some schema, some strict⟩ ?_ rfl _
    exact Record.readMembers_cons (by decide) (setSchema ⟨some name, some text, none, none⟩) _

theorem ResponseFormat.decode_encode {f : ResponseFormat} (h : f.answer.schema.IsDocument) :
    decode f.encode = .ok f := by
  obtain ⟨answer⟩ := f
  exact congrArg (Except.map jsonSchema) (AnswerSchema.decodeTagged_encode h)

/-- A request whose schema is a document is read back as it was written. -/
theorem GenerationRequest.decode_encode {r : GenerationRequest} (h : r.schema.IsDocument) :
    decode r.encode = .ok r := by
  obtain ⟨model, messages, format⟩ := r
  have setMessages (d : Draft) :
      record.set d "messages" (.array (messages.map ChatMessage.encode)) =
        .ok { d with messages := some messages } :=
    congrArg (Except.map _) (decodeEach_map fun m _ => m.decode_encode)
  have setFormat (d : Draft) :
      record.set d "response_format" format.encode =
        .ok { d with responseFormat := some format } :=
    congrArg (Except.map _) (ResponseFormat.decode_encode h)
  refine Record.decodeWith_object ⟨some model, some messages, some format⟩ ?_ rfl fun _ => .fewer
  calc record.readMembers {} [("model", .string model),
        ("messages", .array (messages.map ChatMessage.encode)), ("response_format", format.encode)]
      = record.readMembers ⟨some model, none, none⟩
          [("messages", .array (messages.map ChatMessage.encode)),
            ("response_format", format.encode)] := Record.readMembers_cons (by decide) rfl _
    _ = record.readMembers ⟨some model, some messages, none⟩
          [("response_format", format.encode)] :=
        Record.readMembers_cons (by decide) (setMessages _) _
    _ = .ok ⟨some model, some messages, some format⟩ :=
        Record.readMembers_cons (by decide) (setFormat _) _

/-! ## Names in what is written -/

theorem ChatMessage.distinctNames_encode (m : ChatMessage) : m.encode.DistinctNames := by
  have names : ["role", "content"].Nodup := by decide
  exact ⟨names, trivial, trivial, trivial⟩

theorem AnswerSchema.distinctNames_encode {a : AnswerSchema}
    (h : a.schema.encode.DistinctNames) : a.encode.DistinctNames := by
  obtain ⟨name, description, schema, strict⟩ := a
  cases description with
  | none =>
    have names : ["name", "schema", "strict"].Nodup := by decide
    exact ⟨names, trivial, h, trivial, trivial⟩
  | some text =>
    have names : ["name", "description", "schema", "strict"].Nodup := by decide
    exact ⟨names, trivial, trivial, h, trivial, trivial⟩

/-- A request whose schema repeats no name repeats none. -/
theorem GenerationRequest.distinctNames_encode {r : GenerationRequest}
    (h : r.schema.encode.DistinctNames) : r.encode.DistinctNames := by
  obtain ⟨model, messages, ⟨answer⟩⟩ := r
  have names : ["model", "messages", "response_format"].Nodup := by decide
  have formatNames : ["type", "json_schema"].Nodup := by decide
  have each : EachDistinct (messages.map ChatMessage.encode) :=
    eachDistinct_iff.2 (List.forall_mem_map.2 fun m _ => m.distinctNames_encode)
  exact ⟨names, trivial, each,
    ⟨formatNames, trivial, AnswerSchema.distinctNames_encode h, trivial⟩, trivial⟩

/-! ## The request for a module -/

namespace GenerationRequest

/-- The request carries the schema `r`, the description unless it is empty, and the prompt of the
user after the one of the system, if the settings have one. -/
structure Carries (request : GenerationRequest) (description : Option String) (r : Schema)
    (prompt : String) (settings : GenerationSettings) : Prop where
  schema : request.schema = r
  description : ∀ text, request.responseFormat.answer.description = some text ↔
    description = some text ∧ text ≠ ""
  messages : request.messages = match settings.systemPrompt with
    | none => [⟨.user, prompt⟩]
    | some system => [⟨.system, system⟩, ⟨.user, prompt⟩]

section ForModule

variable (m : ModuleRef) (description : Option String) {s r : Schema} (prompt : String)
  (settings : GenerationSettings)

theorem forModule_of_compile_eq_none (h : compile s = none) :
    forModule m description s prompt settings = .error (.unsupportedSchema m.text) := by
  rw [forModule, prepare, h]
  rfl

theorem exists_forModule_of_compile (h : compile s = some r) :
    ∃ request, forModule m description s prompt settings = .ok request ∧
      request.Carries description r prompt settings := by
  have built : forModule m description s prompt settings = .ok {
      model := settings.model
      messages := openingMessages settings prompt
      responseFormat := .jsonSchema {
        name := m.name
        description := description.filter (!·.isEmpty)
        schema := r
        strict := settings.strict } } := by
    rw [forModule, prepare, h]
    rfl
  refine ⟨_, built, rfl, fun text => ?_, ?_⟩
  · simp [ResponseFormat.answer, Option.filter_eq_some_iff]
  · unfold openingMessages
    cases settings.systemPrompt <;> rfl

end ForModule

/-- A request with a schema of the dialect is read back from its text, if it is not nested too deep
to be read. -/
theorem decodeText_render {request : GenerationRequest} (dialect : request.schema.InDialect)
    (once : request.schema.NamesOnce) (depth : request.encode.depth ≤ depthLimit)
    (format : Format) : decodeText decode (request.encode.render format) = .ok request := by
  have distinct := distinctNames_encode (dialect.distinctNames once)
  rw [decodeText, readText, read_render format depth distinct]
  show (decode request.encode).mapError DocumentError.mismatched = _
  rw [decode_encode dialect.isDocument]
  rfl

/-- A module has a request if its schema has a form. The request carries just this form and is read
back as it was written: from a value, and from a text if it is not nested too deep to be read and
the maps in the schema are maps. A schema without a form is refused in the name of the module. -/
theorem forModule_faithful (m : ModuleRef) (description : Option String) (s : Schema)
    (prompt : String) (settings : GenerationSettings) :
    (∀ r, compile s = some r → ∃ request,
      forModule m description s prompt settings = .ok request ∧
      request.Carries description r prompt settings ∧ decode request.encode = .ok request ∧
      (s.NamesOnce → request.encode.depth ≤ depthLimit → ∀ format,
        decodeText decode (request.encode.render format) = .ok request)) ∧
    (compile s = none →
      forModule m description s prompt settings = .error (.unsupportedSchema m.text)) := by
  refine ⟨fun r form => ?_, forModule_of_compile_eq_none m description prompt settings⟩
  obtain ⟨request, built, carries⟩ :=
    exists_forModule_of_compile m description prompt settings form
  have dialect : request.schema.InDialect := carries.schema ▸ inDialect_of_compile form
  refine ⟨request, built, carries, decode_encode dialect.isDocument, fun once depth format => ?_⟩
  have names : request.schema.NamesOnce := carries.schema ▸ namesOnce_of_compile form once
  exact decodeText_render dialect names depth format

end GenerationRequest

/-- A module whose version is no release. -/
def storyPlace : ModuleRef :=
  { space := "story", name := "place", version := "1.0.0", preversion := "-rc-1" }

/-- Settings with a prompt of the system. -/
def quotingSettings : GenerationSettings := { systemPrompt := some "Say \"yes\".\n" }

/-- The request for `storyPlace` with the schema `optionalChoice`, described by `é`. -/
def placeRequest : GenerationRequest where
  model := "gpt-4o-mini"
  messages := [⟨.system, "Say \"yes\".\n"⟩, ⟨.user, ""⟩]
  responseFormat := .jsonSchema
    { name := "place", description := some "é", schema := optionalChoiceForm, strict := true }

open Schema in
theorem namesOnce_optionalChoice : optionalChoice.NamesOnce := by
  have typed (name : String) : (ofType name).NamesOnce := namesOnce_of_bare rfl rfl rfl rfl
  have unique : NamesOnce { uniqueItems := true } := namesOnce_of_bare rfl rfl rfl rfl
  have choice : (ofAlternatives [ofType "number", { uniqueItems := true }]).NamesOnce :=
    .intro List.nodup_nil nofun
      (List.forall_mem_cons.2 ⟨typed _, List.forall_mem_singleton.2 unique⟩) nofun nofun
  exact .intro (by decide) nofun nofun
    (List.forall_mem_cons.2 ⟨typed _, List.forall_mem_singleton.2 choice⟩) nofun

theorem forModule_faithful_storyPlace :
    GenerationRequest.forModule storyPlace (some "é") optionalChoice "" quotingSettings =
        .ok placeRequest ∧
      placeRequest.Carries (some "é") optionalChoiceForm "" quotingSettings ∧
      GenerationRequest.decode placeRequest.encode = .ok placeRequest ∧
      decodeText GenerationRequest.decode (placeRequest.encode.render .pretty) =
        .ok placeRequest ∧
      GenerationRequest.forModule storyPlace (some "é") {} "" quotingSettings =
        .error (.unsupportedSchema "story:place@v1.0.0-rc-1") := by
  obtain ⟨request, built, carries, read, readText⟩ :=
    (GenerationRequest.forModule_faithful storyPlace (some "é") optionalChoice ""
      quotingSettings).1 optionalChoiceForm rfl
  obtain rfl : placeRequest = request := Except.ok.inj built
  have depth : placeRequest.encode.depth ≤ depthLimit := by decide
  have refused := (GenerationRequest.forModule_faithful storyPlace (some "é") {} ""
    quotingSettings).2 rfl
  exact ⟨built, carries, read, readText namesOnce_optionalChoice depth .pretty, refused⟩

end StrictSchema
