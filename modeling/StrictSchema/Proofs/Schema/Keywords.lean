import StrictSchema.Schema.Decode
import StrictSchema.Schema.Encode

/-!
# The keywords of a node one by one

A node is written keyword by keyword and read in the same way. `Schema.value?` is what a node is
written with under a keyword, if the keyword is written at all (`Schema.encode_eq`), and
`Schema.only` is the node with some of its keywords and nothing else, which is what has been read of
it after these keywords.
-/

namespace StrictSchema

theorem Keyword.ofName?_name (k : Keyword) : ofName? k.name = some k := by
  cases k <;> decide

namespace Schema

/-- The value of a keyword, if it is written. -/
def value? (s : Schema) : Keyword → Option Json
  | .type => s.types.encode?
  | .anyOf => nonemptyList (encodeEach s.anyOf)
  | .minLength => s.limits.minLength.map count
  | .maxLength => s.limits.maxLength.map count
  | .pattern => s.limits.pattern.map .string
  | .format => s.format.map .string
  | .multipleOf => s.limits.multipleOf.map .number
  | .maximum => s.limits.maximum.map .number
  | .exclusiveMaximum => s.limits.exclusiveMaximum.map .number
  | .minimum => s.limits.minimum.map .number
  | .exclusiveMinimum => s.limits.exclusiveMinimum.map .number
  | .minItems => s.limits.minItems.map count
  | .maxItems => s.limits.maxItems.map count
  | .items => encodeItems? s.items
  | .properties => nonemptyMap (encodeMembers s.properties)
  | .required => nonemptyList (s.required.map .string)
  | .additionalProperties => encodeAdditionalProperties? s.additionalProperties
  | .not => encode? s.not
  | .const => s.const
  | .contains => encode? s.contains
  | .uniqueItems => flag s.uniqueItems
  | .deprecated => flag s.deprecated
  | .readOnly => flag s.readOnly
  | .patternProperties => encodeMembers? s.patternProperties
  | .additionalItems => encode? s.additionalItems
  | .allOf => encodeEach? s.allOf
  | .oneOf => encodeEach? s.oneOf
  | .prefixItems => encodeEach? s.prefixItems
  | .examples => nonemptyList s.examples

theorem encode_eq (s : Schema) :
    s.encode = .object (present (Keyword.all.map fun k => (k, s.value? k)) ++ s.extra) := by
  cases s
  rw [encode]
  rfl

/-- The node with the given keywords only. -/
def only (ks : Keyword → Bool) (s : Schema) : Schema where
  types := if ks .type then s.types else {}
  anyOf := if ks .anyOf then s.anyOf else []
  limits :=
    { minLength := if ks .minLength then s.limits.minLength else none
      maxLength := if ks .maxLength then s.limits.maxLength else none
      pattern := if ks .pattern then s.limits.pattern else none
      multipleOf := if ks .multipleOf then s.limits.multipleOf else none
      maximum := if ks .maximum then s.limits.maximum else none
      exclusiveMaximum := if ks .exclusiveMaximum then s.limits.exclusiveMaximum else none
      minimum := if ks .minimum then s.limits.minimum else none
      exclusiveMinimum := if ks .exclusiveMinimum then s.limits.exclusiveMinimum else none
      minItems := if ks .minItems then s.limits.minItems else none
      maxItems := if ks .maxItems then s.limits.maxItems else none }
  format := if ks .format then s.format else none
  items := if ks .items then s.items else none
  properties := if ks .properties then s.properties else []
  required := if ks .required then s.required else []
  additionalProperties := if ks .additionalProperties then s.additionalProperties else none
  not := if ks .not then s.not else none
  const := if ks .const then s.const else none
  contains := if ks .contains then s.contains else none
  uniqueItems := if ks .uniqueItems then s.uniqueItems else false
  deprecated := if ks .deprecated then s.deprecated else false
  readOnly := if ks .readOnly then s.readOnly else false
  patternProperties := if ks .patternProperties then s.patternProperties else none
  additionalItems := if ks .additionalItems then s.additionalItems else none
  allOf := if ks .allOf then s.allOf else none
  oneOf := if ks .oneOf then s.oneOf else none
  prefixItems := if ks .prefixItems then s.prefixItems else none
  examples := if ks .examples then s.examples else []

/-- The given keywords and one more. -/
def addKeyword (ks : Keyword → Bool) (k : Keyword) : Keyword → Bool := fun j => j == k || ks j

theorem only_all (s : Schema) :
    s.only (Keyword.all.foldl addKeyword fun _ => false) = { s with extra := [] } := by
  have hall : (Keyword.all.foldl addKeyword fun _ => false) = fun _ => true := by
    funext k
    cases k <;> rfl
  rw [hall]
  rfl

end Schema

end StrictSchema
