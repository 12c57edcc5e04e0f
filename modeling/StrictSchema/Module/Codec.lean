import StrictSchema.Json.Record
import StrictSchema.Module.Reference

/-!
# Module references as JSON values

A reference is a record of its four parts, all of which are required.
-/

namespace StrictSchema.ModuleRef

/-- The parts read so far. -/
structure Draft where
  space : Option String := none
  name : Option String := none
  version : Option String := none
  preversion : Option String := none

/-- How a reference is read. -/
def record : Record Draft ModuleRef where
  name := "ModuleRef"
  fields := ["namespace", "module", "version", "preversion"]
  start := {}
  set d field v :=
    match field with
    | "namespace" => (Json.decodeString v).map fun s => { d with space := some s }
    | "module" => (Json.decodeString v).map fun s => { d with name := some s }
    | "version" => (Json.decodeString v).map fun s => { d with version := some s }
    | _ => (Json.decodeString v).map fun s => { d with preversion := some s }
  finish d := do
    let space ← required "namespace" d.space
    let name ← required "module" d.name
    let version ← required "version" d.version
    let preversion ← required "preversion" d.preversion
    return { space, name, version, preversion }

/-- Reads a reference. -/
def decode (v : Json) : Json.Decoded ModuleRef := record.decode v

/-- Writes a reference. -/
def encode (m : ModuleRef) : Json :=
  .object [("namespace", .string m.space), ("module", .string m.name),
    ("version", .string m.version), ("preversion", .string m.preversion)]

end StrictSchema.ModuleRef
