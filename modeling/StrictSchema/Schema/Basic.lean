import StrictSchema.Json.Basic

/-!
# Schemas

A `Schema` is a node of a JSON Schema document without references: the keywords that this library
reads have a field each, and every other keyword is kept in `extra`. The `type` keyword holds one
name, a list of names or, in memory, both (`TypeTags`). `Schema.equiv` is equality up to the order
of properties and of the members of JSON values; all lists count in order.
-/

namespace StrictSchema

/-! ## The vocabulary of the strict dialect -/

/-- The type names that structured output knows. -/
def supportedTypes : List String :=
  ["string", "number", "integer", "boolean", "array", "object", "null"]

/-- The string formats that structured output knows. -/
def supportedFormats : List String :=
  ["date-time", "time", "date", "duration", "email", "hostname", "ipv4", "ipv6", "uuid"]

/-! ## Type names -/

/-- The `type` keyword: one name, a list of names, or both. -/
structure TypeTags where
  scalar : Option String := none
  list : List String := []
deriving DecidableEq

namespace TypeTags

def single (name : String) : TypeTags := { scalar := some name }

def many (names : List String) : TypeTags := { list := names }

/-- All names, those of the list first; repeats stay. -/
def names (t : TypeTags) : List String := t.list ++ t.scalar.toList

def isEmpty (t : TypeTags) : Bool := t.scalar.isNone && t.list.isEmpty

def contains (t : TypeTags) (name : String) : Bool := t.names.contains name

/-- Whether `null` is the only type named. -/
def isNullOnly (t : TypeTags) : Bool := !t.isEmpty && t.names.all (· == "null")

end TypeTags

/-! ## Nodes -/

/-- The bounds on strings, numbers and the length of arrays. -/
structure Limits where
  minLength : Option UInt64 := none
  maxLength : Option UInt64 := none
  pattern : Option String := none
  multipleOf : Option Number := none
  maximum : Option Number := none
  exclusiveMaximum : Option Number := none
  minimum : Option Number := none
  exclusiveMinimum : Option Number := none
  minItems : Option UInt64 := none
  maxItems : Option UInt64 := none
deriving DecidableEq

/-- The `items` keyword: one schema for every element, or one for each position. -/
inductive Items (σ : Type) where
  | single (schema : σ)
  | tuple (schemas : List σ)

/-- The `additionalProperties` keyword: a yes or no, or a schema. -/
inductive AdditionalProperties (σ : Type) where
  | allowed (yes : Bool)
  | schema (s : σ)

/-- A node of a schema document. -/
structure Schema where
  types : TypeTags := {}
  anyOf : List Schema := []
  limits : Limits := {}
  format : Option String := none
  items : Option (Items Schema) := none
  properties : List (String × Schema) := []
  required : List String := []
  additionalProperties : Option (AdditionalProperties Schema) := none
  not : Option Schema := none
  const : Option Json := none
  contains : Option Schema := none
  uniqueItems : Bool := false
  deprecated : Bool := false
  readOnly : Bool := false
  patternProperties : Option (List (String × Schema)) := none
  additionalItems : Option Schema := none
  allOf : Option (List Schema) := none
  oneOf : Option (List Schema) := none
  prefixItems : Option (List Schema) := none
  examples : List Json := []
  extra : List (String × Json) := []

namespace Schema

instance : Inhabited Schema := ⟨{}⟩

/-- The schema of one type. -/
def ofType (name : String) : Schema := { types := .single name }

/-- The schema that no value satisfies. -/
def nothing : Schema := { not := some {} }

/-- The schema of objects with the given properties. -/
def object (properties : List (String × Schema)) : Schema :=
  { types := .single "object", properties := Members.ofList properties }

/-- The schema of arrays whose elements all satisfy `item`. -/
def arrayOf (item : Schema) : Schema :=
  { types := .single "array", items := some (.single item) }

/-- The schema of arrays whose elements satisfy the schemas by position. -/
def tupleOf (items : List Schema) : Schema :=
  { types := .single "array", items := some (.tuple items) }

/-- The schema of the values that satisfy one of the alternatives. -/
def ofAlternatives (alternatives : List Schema) : Schema := { anyOf := alternatives }

/-- Whether the node is a choice between alternatives. -/
def isChoice (s : Schema) : Bool := !s.anyOf.isEmpty

end Schema

/-- Rejects every name that is not a property. -/
def AdditionalProperties.nothing : AdditionalProperties Schema := .schema .nothing

end StrictSchema
