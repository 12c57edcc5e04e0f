import StrictSchema.Schema.Basic

/-!
# Keywords

The keywords of a schema document that a `Schema` has a field for, with their names in a document
(`Keyword.name`). `Keyword.all` lists them in the order in which they are written.
-/

namespace StrictSchema

/-- A keyword with a field of its own. -/
inductive Keyword where
  | type
  | anyOf
  | minLength
  | maxLength
  | pattern
  | format
  | multipleOf
  | maximum
  | exclusiveMaximum
  | minimum
  | exclusiveMinimum
  | minItems
  | maxItems
  | items
  | properties
  | required
  | additionalProperties
  | not
  | const
  | contains
  | uniqueItems
  | deprecated
  | readOnly
  | patternProperties
  | additionalItems
  | allOf
  | oneOf
  | prefixItems
  | examples
deriving DecidableEq, Repr

namespace Keyword

/-- All keywords, in the order in which they are written. -/
def all : List Keyword :=
  [.type, .anyOf, .minLength, .maxLength, .pattern, .format, .multipleOf, .maximum,
    .exclusiveMaximum, .minimum, .exclusiveMinimum, .minItems, .maxItems, .items, .properties,
    .required, .additionalProperties, .not, .const, .contains, .uniqueItems, .deprecated, .readOnly,
    .patternProperties, .additionalItems, .allOf, .oneOf, .prefixItems, .examples]

/-- The name of a keyword in a document. -/
def name : Keyword → String
  | type => "type"
  | anyOf => "anyOf"
  | minLength => "minLength"
  | maxLength => "maxLength"
  | pattern => "pattern"
  | format => "format"
  | multipleOf => "multipleOf"
  | maximum => "maximum"
  | exclusiveMaximum => "exclusiveMaximum"
  | minimum => "minimum"
  | exclusiveMinimum => "exclusiveMinimum"
  | minItems => "minItems"
  | maxItems => "maxItems"
  | items => "items"
  | properties => "properties"
  | required => "required"
  | additionalProperties => "additionalProperties"
  | not => "not"
  | const => "const"
  | contains => "contains"
  | uniqueItems => "uniqueItems"
  | deprecated => "deprecated"
  | readOnly => "readOnly"
  | patternProperties => "patternProperties"
  | additionalItems => "additionalItems"
  | allOf => "allOf"
  | oneOf => "oneOf"
  | prefixItems => "prefixItems"
  | examples => "examples"

/-- The keyword of the given name. -/
def ofName? (s : String) : Option Keyword := all.find? fun k => k.name == s

end Keyword

end StrictSchema
