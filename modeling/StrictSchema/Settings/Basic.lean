import StrictSchema.Json.Record

/-!
# Settings

The settings say how generation is requested, how JSON is printed and which files a check reads
(`Settings`). Each has a default. This file holds the settings with their form as JSON values, where
every field may be missing.
-/

namespace StrictSchema

/-- How generation is requested: the model, whether the schema is enforced, and the message that
opens every conversation. -/
structure GenerationSettings where
  model : String := "gpt-4o-mini"
  strict : Bool := true
  systemPrompt : Option String := none
deriving DecidableEq

/-- How JSON is printed. -/
structure OutputSettings where
  format : Json.Format := .pretty
deriving DecidableEq

/-- Which files a check reads, by extension, and whether it stops at the first unsupported one. -/
structure CheckSettings where
  extensions : List String := ["json"]
  failFast : Bool := false
deriving DecidableEq

/-- All settings. -/
structure Settings where
  generation : GenerationSettings := {}
  output : OutputSettings := {}
  check : CheckSettings := {}
deriving DecidableEq

namespace Json.Format

/-- The formats by name. -/
def choices : List (String × Json.Format) := [("pretty", .pretty), ("compact", .compact)]

def name : Json.Format → String
  | .pretty => "pretty"
  | .compact => "compact"

def decode (v : Json) : Json.Decoded Json.Format := Json.decodeChoice choices v

end Json.Format

/-! ## Reading -/

def GenerationSettings.record : Record GenerationSettings GenerationSettings where
  name := "GenerationConfig"
  fields := ["model", "strict", "system_prompt"]
  start := {}
  set d field v :=
    match field with
    | "model" => (Json.decodeString v).map fun model => { d with model }
    | "strict" => (Json.decodeBool v).map fun strict => { d with strict }
    | _ => (Json.nullable Json.decodeString v).map fun systemPrompt => { d with systemPrompt }
  finish := .ok

def OutputSettings.record : Record OutputSettings OutputSettings where
  name := "OutputConfig"
  fields := ["format"]
  start := {}
  set d _ v := (Json.Format.decode v).map fun format => { d with format }
  finish := .ok

def CheckSettings.record : Record CheckSettings CheckSettings where
  name := "CheckConfig"
  fields := ["extensions", "fail_fast"]
  start := {}
  set d field v :=
    match field with
    | "extensions" => (Json.decodeStrings v).map fun extensions => { d with extensions }
    | _ => (Json.decodeBool v).map fun failFast => { d with failFast }
  finish := .ok

def Settings.record : Record Settings Settings where
  name := "SchemaConfig"
  fields := ["generation", "output", "check"]
  start := {}
  set d field v :=
    match field with
    | "generation" => (GenerationSettings.record.decode v).map fun generation =>
      { d with generation }
    | "output" => (OutputSettings.record.decode v).map fun output => { d with output }
    | _ => (CheckSettings.record.decode v).map fun check => { d with check }
  finish := .ok

def GenerationSettings.decode (v : Json) : Json.Decoded GenerationSettings := record.decode v

def Settings.decode (v : Json) : Json.Decoded Settings := record.decode v

/-! ## Writing -/

/-- The settings as a value that shows all of them. -/
def Settings.encode (s : Settings) : Json :=
  .object [
    ("generation", .object [
      ("model", .string s.generation.model),
      ("strict", .bool s.generation.strict),
      ("system_prompt", match s.generation.systemPrompt with
        | some prompt => .string prompt
        | none => .null)]),
    ("output", .object [("format", .string s.output.format.name)]),
    ("check", .object [
      ("extensions", Json.strings s.check.extensions),
      ("fail_fast", .bool s.check.failFast)])]

end StrictSchema
