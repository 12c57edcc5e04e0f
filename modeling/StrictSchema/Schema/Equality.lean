import StrictSchema.Schema.Basic

/-!
# Equality of schemas

`Schema.equiv` compares two nodes field by field. Maps (properties, pattern properties, unknown
keywords and the members of JSON values) are equal in any order, lists only in the same one. An
absent keyword differs from one that is present and empty.
-/

namespace StrictSchema

/-- Equality of values that may be absent. -/
def optionEquiv {α : Type} (equiv : α → α → Bool) : Option α → Option α → Bool
  | none, none => true
  | some x, some y => equiv x y
  | _, _ => false

/-- Equality of bounds, numbers by value. -/
def Limits.equiv (a b : Limits) : Bool :=
  a.minLength == b.minLength && a.maxLength == b.maxLength && a.pattern == b.pattern &&
  optionEquiv Number.equiv a.multipleOf b.multipleOf &&
  optionEquiv Number.equiv a.maximum b.maximum &&
  optionEquiv Number.equiv a.exclusiveMaximum b.exclusiveMaximum &&
  optionEquiv Number.equiv a.minimum b.minimum &&
  optionEquiv Number.equiv a.exclusiveMinimum b.exclusiveMinimum &&
  a.minItems == b.minItems && a.maxItems == b.maxItems

namespace Schema

mutual

/-- Equality of nodes, whatever the order of their maps. -/
def equiv : Schema → Schema → Bool
  | { types, anyOf, limits, format, items, properties, required, additionalProperties, not, const,
      contains, uniqueItems, deprecated, readOnly, patternProperties, additionalItems, allOf, oneOf,
      prefixItems, examples, extra }, t =>
    types == t.types && equivEach anyOf t.anyOf && limits.equiv t.limits && format == t.format &&
    equivItems items t.items && properties.length == t.properties.length &&
    equivMembers properties t.properties && required == t.required &&
    equivAdditionalProperties additionalProperties t.additionalProperties &&
    equivOption not t.not && optionEquiv Json.equiv const t.const &&
    equivOption contains t.contains && uniqueItems == t.uniqueItems &&
    deprecated == t.deprecated && readOnly == t.readOnly &&
    equivMapOption patternProperties t.patternProperties &&
    equivOption additionalItems t.additionalItems && equivEachOption allOf t.allOf &&
    equivEachOption oneOf t.oneOf && equivEachOption prefixItems t.prefixItems &&
    Json.equivElements examples t.examples && extra.length == t.extra.length &&
    Json.equivMembers extra t.extra
termination_by structural s => s

/-- Equality position by position. -/
def equivEach : List Schema → List Schema → Bool
  | [], [] => true
  | s :: ss, t :: ts => equiv s t && equivEach ss ts
  | _, _ => false
termination_by structural ss => ss

/-- Whether each of the members has its equal under the same name among `ts`. -/
def equivMembers : List (String × Schema) → List (String × Schema) → Bool
  | [], _ => true
  | (name, s) :: ss, ts =>
    (match Members.find? name ts with
      | some t => equiv s t
      | none => false) && equivMembers ss ts
termination_by structural ss => ss

/-- Equality of nodes that may be absent. -/
def equivOption : Option Schema → Option Schema → Bool
  | none, none => true
  | some s, some t => equiv s t
  | _, _ => false
termination_by structural s => s

/-- Equality of lists that may be absent. -/
def equivEachOption : Option (List Schema) → Option (List Schema) → Bool
  | none, none => true
  | some ss, some ts => equivEach ss ts
  | _, _ => false
termination_by structural ss => ss

/-- Equality of maps that may be absent. -/
def equivMapOption : Option (List (String × Schema)) → Option (List (String × Schema)) → Bool
  | none, none => true
  | some ss, some ts => ss.length == ts.length && equivMembers ss ts
  | _, _ => false
termination_by structural ss => ss

/-- Equality of the values of `items`. -/
def equivItems : Option (Items Schema) → Option (Items Schema) → Bool
  | none, none => true
  | some (.single s), some (.single t) => equiv s t
  | some (.tuple ss), some (.tuple ts) => equivEach ss ts
  | _, _ => false
termination_by structural items => items

/-- Equality of the values of `additionalProperties`. -/
def equivAdditionalProperties :
    Option (AdditionalProperties Schema) → Option (AdditionalProperties Schema) → Bool
  | none, none => true
  | some (.allowed a), some (.allowed b) => a == b
  | some (.schema s), some (.schema t) => equiv s t
  | _, _ => false
termination_by structural additionalProperties => additionalProperties

end

end Schema

/-- Whether no further property is allowed. -/
def AdditionalProperties.isNothing : AdditionalProperties Schema → Bool
  | .allowed yes => !yes
  | .schema s => s.equiv .nothing

end StrictSchema
