import StrictSchema.Json.Decode

/-!
# Records

A record is written as an object with a member for each field, and is also read from a list that has
the fields in order. A `Record` says how: a draft takes the fields as they come (`set`), and the
draft is finished when all have been read (`finish`), which fails with the name of a field that is
missing. Other members are ignored. A `Choice` is a set of named values, written by name.
-/

namespace StrictSchema

/-- How a record of type `α` is read, by way of drafts of type `δ`. -/
structure Record (δ α : Type) where
  name : String
  fields : List String
  start : δ
  set : δ → String → Json → Json.Decoded δ
  finish : δ → Except String α

namespace Record

variable {δ α : Type}

/-- Reads named values in order; those that are no fields are ignored. -/
def readMembers (r : Record δ α) (draft : δ) : List (String × Json) → Json.Decoded δ
  | [] => .ok draft
  | (name, v) :: rest =>
    if r.fields.contains name then (r.set draft name v).bind fun d => readMembers r d rest
    else readMembers r draft rest

/-- Reads a record from a value. A list may end before fields that have a default; one with too many
elements is reported in the words of `excess`. -/
def decodeWith (excess : Nat → WantedLength) (r : Record δ α) : Json → Json.Decoded α
  | .object members => do
    let draft ← r.readMembers r.start members
    (r.finish draft).mapError .missingField
  | .array vs => do
    let draft ← r.readMembers r.start (r.fields.zip vs)
    let result ← (r.finish draft).mapError fun field =>
      .wrongLength (r.fields.idxOf field) (.fields r.name r.fields.length)
    if r.fields.length < vs.length then
      .error (.wrongLength vs.length (excess r.fields.length))
    else .ok result
  | v => v.unexpected (.record r.name)

/-- Reads a record from a value of a document. -/
def decode (r : Record δ α) (v : Json) : Json.Decoded α := r.decodeWith (fun _ => .fewer) v

/-- Reads a record from a value inside a tagged value. -/
def decodeTagged (r : Record δ α) (v : Json) : Json.Decoded α := r.decodeWith .exactly v

end Record

/-- The value of a field, or its name if it is missing. -/
def required {α : Type} (name : String) : Option α → Except String α
  | some x => .ok x
  | none => .error name

/-- Reads one of the named values: by its name, or as an object whose only member has the name and
is null. -/
def Json.decodeChoice {α : Type} (choices : List (String × α)) (v : Json) : Json.Decoded α :=
  let named (name : String) : Json.Decoded α :=
    match Members.find? name choices with
    | some x => .ok x
    | none => .error (.unknownName name (Members.names choices))
  match v with
  | .string name => named name
  | .object [(name, .null)] => named name
  | .object [(name, content)] => do
    let _ ← named name
    content.unexpected .unit
  | .object _ => .error (.wrongValue .map .singleMember)
  | v => v.unexpected .choice

end StrictSchema
