import StrictSchema.Json.Record
import StrictSchema.Schema.Equality
import StrictSchema.Schema.Encode
import StrictSchema.Schema.Decode
import StrictSchema.Settings.Basic

/-!
# Generation requests

A `GenerationRequest` asks a chat model for an answer that satisfies a schema: it names the model,
holds the messages, and carries the schema in its response format. This file holds requests with
their form as JSON values. The response format is written with a member `type` that tells its kind.
-/

namespace StrictSchema

/-- The author of a message. -/
inductive Role where
  | system
  | user
deriving DecidableEq, Repr

/-- A message of a conversation. -/
structure ChatMessage where
  role : Role
  content : String
deriving DecidableEq, Repr

/-- A named schema that the answer has to satisfy. -/
structure AnswerSchema where
  name : String
  description : Option String
  schema : Schema
  strict : Bool

/-- The form wanted of the answer. -/
inductive ResponseFormat where
  | jsonSchema (answer : AnswerSchema)

/-- A request for an answer that satisfies a schema. -/
structure GenerationRequest where
  model : String
  messages : List ChatMessage
  responseFormat : ResponseFormat

/-- The part of a response format that depends on its kind. -/
def ResponseFormat.answer : ResponseFormat → AnswerSchema
  | .jsonSchema answer => answer

/-- The schema that a request carries. -/
def GenerationRequest.schema (r : GenerationRequest) : Schema := r.responseFormat.answer.schema

/-- Equality of requests, schemas up to the order of their maps. -/
def GenerationRequest.equiv (a b : GenerationRequest) : Bool :=
  let x := a.responseFormat.answer
  let y := b.responseFormat.answer
  a.model == b.model && a.messages == b.messages && x.name == y.name &&
    x.description == y.description && x.schema.equiv y.schema && x.strict == y.strict

/-! ## Writing -/

/-- The roles by name. -/
def Role.choices : List (String × Role) := [("system", .system), ("user", .user)]

def Role.name : Role → String
  | .system => "system"
  | .user => "user"

def ChatMessage.encode (m : ChatMessage) : Json :=
  .object [("role", .string m.role.name), ("content", .string m.content)]

/-- A description that is absent has no member. -/
def AnswerSchema.encode (a : AnswerSchema) : Json :=
  .object ([("name", .string a.name)] ++
    (a.description.map fun d => ("description", Json.string d)).toList ++
    [("schema", a.schema.encode), ("strict", .bool a.strict)])

def ResponseFormat.encode : ResponseFormat → Json
  | .jsonSchema answer =>
    .object [("type", .string "json_schema"), ("json_schema", answer.encode)]

def GenerationRequest.encode (r : GenerationRequest) : Json :=
  .object [("model", .string r.model), ("messages", .array (r.messages.map ChatMessage.encode)),
    ("response_format", r.responseFormat.encode)]

/-! ## Reading -/

/-- The fields of a message read so far. -/
structure ChatMessage.Draft where
  role : Option Role := none
  content : Option String := none

def ChatMessage.record : Record ChatMessage.Draft ChatMessage where
  name := "ChatMessage"
  fields := ["role", "content"]
  start := {}
  set d field v :=
    match field with
    | "role" => (Json.decodeChoice Role.choices v).map fun role => { d with role := some role }
    | _ => (Json.decodeString v).map fun s => { d with content := some s }
  finish d := do
    let role ← required "role" d.role
    let content ← required "content" d.content
    return { role, content }

/-- The fields of a named schema read so far. -/
structure AnswerSchema.Draft where
  name : Option String := none
  description : Option String := none
  schema : Option Schema := none
  strict : Option Bool := none

def AnswerSchema.record : Record AnswerSchema.Draft AnswerSchema where
  name := "JsonSchemaFormat"
  fields := ["name", "description", "schema", "strict"]
  start := {}
  set d field v :=
    match field with
    | "name" => (Json.decodeString v).map fun s => { d with name := some s }
    | "description" =>
      (Json.nullable Json.decodeString v).map fun description => { d with description }
    | "schema" => (Schema.decode v).map fun s => { d with schema := some s }
    | _ => (Json.decodeBool v).map fun b => { d with strict := some b }
  finish d := do
    let name ← required "name" d.name
    let schema ← required "schema" d.schema
    let strict ← required "strict" d.strict
    return { name, description := d.description, schema, strict }

/-- The kind of a response format is the one there is. -/
def ResponseFormat.checkTag : Json → Json.Decoded Unit
  | .string "json_schema" => .ok ()
  | .string name => .error (.unknownName name ["json_schema"])
  | v => v.unexpected .tag

/-- Reads a response format from an object with its kind anywhere among the members, or from a list
that starts with its kind. -/
def ResponseFormat.decode : Json → Json.Decoded ResponseFormat
  | .object members => do
    match Members.find? "type" members with
    | none => throw (.missingField "type")
    | some tag => ResponseFormat.checkTag tag
    match Members.find? "json_schema" members with
    | none => throw (.missingField "json_schema")
    | some v => (AnswerSchema.record.decodeTagged v).map .jsonSchema
  | .array [] => .error (.missingField "type")
  | .array (tag :: content) => do
    ResponseFormat.checkTag tag
    match content with
    | [] => throw (.wrongLength 0 (.content "ResponseFormat::JsonSchema" 1))
    | v :: more =>
      let answer ← AnswerSchema.record.decodeTagged v
      if more.isEmpty then return .jsonSchema answer
      else throw (.wrongLength content.length (.exactly 1))
  | v => v.unexpected (.tagged "ResponseFormat")

/-- The fields of a request read so far. -/
structure GenerationRequest.Draft where
  model : Option String := none
  messages : Option (List ChatMessage) := none
  responseFormat : Option ResponseFormat := none

def GenerationRequest.record : Record GenerationRequest.Draft GenerationRequest where
  name := "StructuredOutputRequest"
  fields := ["model", "messages", "response_format"]
  start := {}
  set d field v :=
    match field with
    | "model" => (Json.decodeString v).map fun s => { d with model := some s }
    | "messages" =>
      (Json.decodeList v).bind fun vs =>
        (Json.decodeEach ChatMessage.record.decode vs).map fun ms => { d with messages := some ms }
    | _ => (ResponseFormat.decode v).map fun f => { d with responseFormat := some f }
  finish d := do
    let model ← required "model" d.model
    let messages ← required "messages" d.messages
    let responseFormat ← required "response_format" d.responseFormat
    return { model, messages, responseFormat }

/-- Reads a request. -/
def GenerationRequest.decode (v : Json) : Json.Decoded GenerationRequest := record.decode v

end StrictSchema
