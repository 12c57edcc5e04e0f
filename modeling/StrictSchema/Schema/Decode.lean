import StrictSchema.Json.Decode
import StrictSchema.Schema.Keyword

/-!
# Schemas from JSON values

`Schema.decode` reads a node from an object, member by member in the order of the document, and
stops at the first error. A boolean is a schema too: true accepts everything and false nothing. The
keywords `type`, `items` and `additionalProperties` have several forms; a value of none of them is
reported as such, whatever was wrong inside. Other keywords are kept as they are.
-/

namespace StrictSchema

open Json

/-- One name, or a list of names. -/
def TypeTags.decode : Json → Decoded TypeTags
  | .string name => .ok (.single name)
  | v =>
    match decodeStrings v with
    | .ok names => .ok (.many names)
    | .error _ => .error (.noForm "Repr")

namespace Schema

/-- A value read as a node, as a list of nodes and as a map of nodes, each when it is asked for. -/
structure Readings where
  node : Unit → Decoded Schema
  nodes : Unit → Decoded (List Schema)
  nodeMap : Unit → Decoded (List (String × Schema))

/-- The result, or the error of a value that has none of the forms of a keyword. -/
def orNoForm {α : Type} (name : String) : Decoded α → Decoded α
  | .ok x => .ok x
  | .error _ => .error (.noForm name)

/-- What a reading makes of a value; a null is an absent value. -/
def unlessNull {α : Type} (v : Json) (read : Unit → Decoded α) : Decoded (Option α) :=
  match v with
  | .null => .ok none
  | _ => (read ()).map some

/-- The value of `items`: one node, or a list of them. -/
def readItems (v : Json) (r : Readings) : Decoded (Items Schema) :=
  orNoForm "Items" (match v with
    | .array _ => (r.nodes ()).map .tuple
    | _ => (r.node ()).map .single)

/-- The value of `additionalProperties`: a boolean, or a node. -/
def readAdditionalProperties (v : Json) (r : Readings) : Decoded (AdditionalProperties Schema) :=
  orNoForm "AdditionalProperties" (match v with
    | .bool yes => .ok (.allowed yes)
    | _ => (r.node ()).map .schema)

/-- The bounds with one of them read. Other keywords are no bounds. -/
def readLimit (l : Limits) (v : Json) : Keyword → Decoded Limits
  | .minLength => (nullable decodeWord v).map fun minLength => { l with minLength }
  | .maxLength => (nullable decodeWord v).map fun maxLength => { l with maxLength }
  | .pattern => (nullable decodeString v).map fun pattern => { l with pattern }
  | .multipleOf => (nullable decodeNumber v).map fun multipleOf => { l with multipleOf }
  | .maximum => (nullable decodeNumber v).map fun maximum => { l with maximum }
  | .exclusiveMaximum =>
    (nullable decodeNumber v).map fun exclusiveMaximum => { l with exclusiveMaximum }
  | .minimum => (nullable decodeNumber v).map fun minimum => { l with minimum }
  | .exclusiveMinimum =>
    (nullable decodeNumber v).map fun exclusiveMinimum => { l with exclusiveMinimum }
  | .minItems => (nullable decodeWord v).map fun minItems => { l with minItems }
  | .maxItems => (nullable decodeWord v).map fun maxItems => { l with maxItems }
  | _ => .ok l

/-- The node with the value of a keyword read into it. -/
def readKeyword (s : Schema) (v : Json) (r : Readings) : Keyword → Decoded Schema
  | .type => (TypeTags.decode v).map fun types => { s with types }
  | .anyOf => (r.nodes ()).map fun anyOf => { s with anyOf }
  | .format => (nullable decodeString v).map fun format => { s with format }
  | .items => (unlessNull v fun _ => readItems v r).map fun items => { s with items }
  | .properties => (r.nodeMap ()).map fun properties => { s with properties }
  | .required => (decodeStrings v).map fun required => { s with required }
  | .additionalProperties =>
    (unlessNull v fun _ => readAdditionalProperties v r).map fun additionalProperties =>
      { s with additionalProperties }
  | .not => (unlessNull v r.node).map fun not => { s with not }
  | .const => .ok { s with const := some v }
  | .contains => (unlessNull v r.node).map fun contains => { s with contains }
  | .uniqueItems => (decodeBool v).map fun uniqueItems => { s with uniqueItems }
  | .deprecated => (decodeBool v).map fun deprecated => { s with deprecated }
  | .readOnly => (decodeBool v).map fun readOnly => { s with readOnly }
  | .patternProperties =>
    (unlessNull v r.nodeMap).map fun patternProperties => { s with patternProperties }
  | .additionalItems => (unlessNull v r.node).map fun additionalItems => { s with additionalItems }
  | .allOf => (unlessNull v r.nodes).map fun allOf => { s with allOf }
  | .oneOf => (unlessNull v r.nodes).map fun oneOf => { s with oneOf }
  | .prefixItems => (unlessNull v r.nodes).map fun prefixItems => { s with prefixItems }
  | .examples => (decodeList v).map fun examples => { s with examples }
  | keyword => (readLimit s.limits v keyword).map fun limits => { s with limits }

/-- The node with a member of its document read into it. -/
def readMember (s : Schema) (name : String) (v : Json) (r : Readings) : Decoded Schema :=
  match Keyword.ofName? name with
  | some keyword => readKeyword s v r keyword
  | none => .ok { s with extra := s.extra ++ [(name, v)] }

mutual

/-- Reads a node. -/
def decode : Json → Decoded Schema
  | .bool true => .ok {}
  | .bool false => .ok nothing
  | .object members => decodeMembers {} members
  | .null => Json.null.unexpected (.record "Schema")
  | .number n => (Json.number n).unexpected (.record "Schema")
  | .string text => (Json.string text).unexpected (.record "Schema")
  | .array vs => (Json.array vs).unexpected (.record "Schema")
termination_by structural v => v

/-- Reads a list of nodes. -/
def decodeNodes : Json → Decoded (List Schema)
  | .array vs => decodeEachNode vs
  | .null => Json.null.unexpected .list
  | .bool b => (Json.bool b).unexpected .list
  | .number n => (Json.number n).unexpected .list
  | .string text => (Json.string text).unexpected .list
  | .object members => (Json.object members).unexpected .list
termination_by structural v => v

/-- Reads a map of nodes. -/
def decodeNodeMap : Json → Decoded (List (String × Schema))
  | .object members => decodeNamedNodes members
  | .null => Json.null.unexpected .map
  | .bool b => (Json.bool b).unexpected .map
  | .number n => (Json.number n).unexpected .map
  | .string text => (Json.string text).unexpected .map
  | .array vs => (Json.array vs).unexpected .map
termination_by structural v => v

/-- Reads the members of a node one after the other into `s`. -/
def decodeMembers (s : Schema) : List (String × Json) → Decoded Schema
  | [] => .ok s
  | (name, v) :: rest =>
    (readMember s name v ⟨fun _ => decode v, fun _ => decodeNodes v, fun _ => decodeNodeMap v⟩).bind
      fun s => decodeMembers s rest
termination_by structural members => members

/-- Reads the nodes of a list in order. -/
def decodeEachNode : List Json → Decoded (List Schema)
  | [] => .ok []
  | v :: vs => (decode v).bind fun s => (decodeEachNode vs).map (s :: ·)
termination_by structural vs => vs

/-- Reads the nodes of a map in order. -/
def decodeNamedNodes : List (String × Json) → Decoded (List (String × Schema))
  | [] => .ok []
  | (name, v) :: rest => (decode v).bind fun s => (decodeNamedNodes rest).map ((name, s) :: ·)
termination_by structural members => members

end

end Schema

/-- A boolean, or a schema. -/
def AdditionalProperties.decode : Json → Decoded (AdditionalProperties Schema)
  | .bool yes => .ok (.allowed yes)
  | v => Schema.orNoForm "AdditionalProperties" ((Schema.decode v).map .schema)

end StrictSchema
