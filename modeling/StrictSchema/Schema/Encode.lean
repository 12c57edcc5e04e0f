import StrictSchema.Schema.Keyword

/-!
# Schemas as JSON values

`Schema.encode` writes a node as an object: the keywords with a field of their own that are present,
in the order of `Keyword.all`, then the others. Empty lists of types, alternatives, required names
and examples, an empty property map and a false flag count as absent.
-/

namespace StrictSchema

/-- One name stands alone, a list as a list. With both, the name is added to a list that lacks it.
-/
def TypeTags.encode (t : TypeTags) : Json :=
  match t.scalar, t.list with
  | some name, [] => .string name
  | none, [] => .null
  | none, names => Json.strings names
  | some name, names => Json.strings (if names.contains name then names else names ++ [name])

/-- The value of `type`, which is absent when it names nothing. -/
def TypeTags.encode? (t : TypeTags) : Option Json := if t.isEmpty then none else some t.encode

namespace Schema

/-- The keywords that have a value, under their names. -/
def present (keywords : List (Keyword × Option Json)) : List (String × Json) :=
  keywords.filterMap fun (keyword, value) => value.map fun v => (keyword.name, v)

/-- A list that is absent when it is empty. -/
def nonemptyList (vs : List Json) : Option Json := if vs.isEmpty then none else some (.array vs)

/-- A map that is absent when it is empty. -/
def nonemptyMap (members : List (String × Json)) : Option Json :=
  if members.isEmpty then none else some (.object members)

/-- A flag that is absent when it is false. -/
def flag (b : Bool) : Option Json := if b then some (.bool true) else none

/-- A length or a count. -/
def count (n : UInt64) : Json := .number (.ofWord n)

mutual

/-- The object that a node is written as. -/
def encode : Schema → Json
  | { types, anyOf, limits, format, items, properties, required, additionalProperties, not, const,
      contains, uniqueItems, deprecated, readOnly, patternProperties, additionalItems, allOf, oneOf,
      prefixItems, examples, extra } =>
    .object (present [
      (.type, types.encode?),
      (.anyOf, nonemptyList (encodeEach anyOf)),
      (.minLength, limits.minLength.map count),
      (.maxLength, limits.maxLength.map count),
      (.pattern, limits.pattern.map .string),
      (.format, format.map .string),
      (.multipleOf, limits.multipleOf.map .number),
      (.maximum, limits.maximum.map .number),
      (.exclusiveMaximum, limits.exclusiveMaximum.map .number),
      (.minimum, limits.minimum.map .number),
      (.exclusiveMinimum, limits.exclusiveMinimum.map .number),
      (.minItems, limits.minItems.map count),
      (.maxItems, limits.maxItems.map count),
      (.items, encodeItems? items),
      (.properties, nonemptyMap (encodeMembers properties)),
      (.required, nonemptyList (required.map .string)),
      (.additionalProperties, encodeAdditionalProperties? additionalProperties),
      (.not, encode? not),
      (.const, const),
      (.contains, encode? contains),
      (.uniqueItems, flag uniqueItems),
      (.deprecated, flag deprecated),
      (.readOnly, flag readOnly),
      (.patternProperties, encodeMembers? patternProperties),
      (.additionalItems, encode? additionalItems),
      (.allOf, encodeEach? allOf),
      (.oneOf, encodeEach? oneOf),
      (.prefixItems, encodeEach? prefixItems),
      (.examples, nonemptyList examples)] ++ extra)
termination_by structural s => s

/-- The nodes of a list as values. -/
def encodeEach : List Schema → List Json
  | [] => []
  | s :: ss => encode s :: encodeEach ss
termination_by structural ss => ss

/-- The nodes of a map as members. -/
def encodeMembers : List (String × Schema) → List (String × Json)
  | [] => []
  | (name, s) :: ss => (name, encode s) :: encodeMembers ss
termination_by structural ss => ss

/-- A node that may be absent. -/
def encode? : Option Schema → Option Json
  | none => none
  | some s => some (encode s)
termination_by structural s => s

/-- A list of nodes that may be absent; an empty one is written. -/
def encodeEach? : Option (List Schema) → Option Json
  | none => none
  | some ss => some (.array (encodeEach ss))
termination_by structural ss => ss

/-- A map of nodes that may be absent; an empty one is written. -/
def encodeMembers? : Option (List (String × Schema)) → Option Json
  | none => none
  | some ss => some (.object (encodeMembers ss))
termination_by structural ss => ss

/-- The value of `items`. -/
def encodeItems? : Option (Items Schema) → Option Json
  | none => none
  | some (.single s) => some (encode s)
  | some (.tuple ss) => some (.array (encodeEach ss))
termination_by structural items => items

/-- The value of `additionalProperties`. -/
def encodeAdditionalProperties? : Option (AdditionalProperties Schema) → Option Json
  | none => none
  | some (.allowed yes) => some (.bool yes)
  | some (.schema s) => some (encode s)
termination_by structural additionalProperties => additionalProperties

end

end Schema

/-- The value that `additionalProperties` is written as. -/
def AdditionalProperties.encode : AdditionalProperties Schema → Json
  | .allowed yes => .bool yes
  | .schema s => s.encode

end StrictSchema
