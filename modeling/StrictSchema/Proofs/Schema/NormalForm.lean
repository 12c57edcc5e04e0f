import StrictSchema.Json.Basic
import StrictSchema.Schema.Keyword

/-!
# The normal form of a document

Reading a document as a schema and writing the schema again changes the document in a few ways
only, and `Json.normalNode` makes just these changes: boolean schemas become objects, members that
say no more than their absence go (`Json.saysNothing`), and the known keywords stand first, in the
order in which they are written. All else stays as it is: values that are no schemas, unknown
keywords, and the order of maps.
-/

namespace StrictSchema

/-- The last value of a name. -/
def Members.last? {α : Type} (name : String) : List (String × α) → Option α
  | [] => none
  | (n, v) :: rest => (last? name rest).or (if n = name then some v else none)

namespace Json

/-! ## The changes -/

def isNull : Json → Bool
  | .null => true
  | _ => false

def isFalse : Json → Bool
  | .bool false => true
  | _ => false

def isEmptyArray : Json → Bool
  | .array [] => true
  | _ => false

def isEmptyObject : Json → Bool
  | .object [] => true
  | _ => false

/-- Whether a keyword with this value might as well be absent: a list, a map or a flag with nothing
in it, or null where the keyword is optional. A constant is not optional, even if it is null. -/
def saysNothing (v : Json) : Keyword → Bool
  | .type | .anyOf | .required | .examples => v.isEmptyArray
  | .properties => v.isEmptyObject
  | .uniqueItems | .deprecated | .readOnly => v.isFalse
  | .const => false
  | _ => v.isNull

/-- The normal forms of a value as a node, of its elements as nodes, and of its members as nodes. -/
structure NormalParts where
  node : Json
  nodes : List Json
  nodeMap : List (String × Json)

/-- The value of a keyword with the schemas in it in normal form. Only under `additionalProperties`
a boolean stands for itself. -/
def normalValue (v : Json) (parts : NormalParts) : Keyword → Json
  | .not | .contains | .additionalItems => parts.node
  | .anyOf | .allOf | .oneOf | .prefixItems => .array parts.nodes
  | .properties | .patternProperties => .object parts.nodeMap
  | .items =>
    match v with
    | .array _ => .array parts.nodes
    | _ => parts.node
  | .additionalProperties =>
    match v with
    | .bool _ => v
    | _ => parts.node
  | _ => v

theorem normalValue_items {v : Json} {parts : NormalParts} (h : ∀ vs, v = .array vs → False) :
    v.normalValue parts .items = parts.node := by
  cases v with
  | array vs => exact absurd rfl (h vs)
  | _ => rfl

theorem normalValue_additionalProperties {v : Json} {parts : NormalParts}
    (h : ∀ b, v = .bool b → False) : v.normalValue parts .additionalProperties = parts.node := by
  cases v with
  | bool b => exact absurd rfl (h b)
  | _ => rfl

/-- The value of a known keyword that is left. -/
def normalMember (name : String) (v : Json) (parts : NormalParts) : Option Json :=
  match Keyword.ofName? name with
  | none => none
  | some k => if v.saysNothing k then none else some (v.normalValue parts k)

/-- The known keywords that are left, in the order in which they are written. If a name were there
twice, the last one would count. -/
def inOrder (values : List (String × Option Json)) : List (String × Json) :=
  Keyword.all.filterMap fun k => (Members.last? k.name values).join.map fun v => (k.name, v)

/-- The members that are no known keywords. -/
def unknownMembers (members : List (String × Json)) : List (String × Json) :=
  members.filter fun m => (Keyword.ofName? m.1).isNone

mutual

/-- The normal form of a node. -/
def normalNode : Json → Json
  | .bool true => .object []
  | .bool false => .object [("not", .object [])]
  | .object members => .object (inOrder (normalMembers members) ++ unknownMembers members)
  | .null => .null
  | .number n => .number n
  | .string text => .string text
  | .array vs => .array vs
termination_by structural v => v

/-- The normal forms of the elements of a list of nodes. -/
def normalNodes : Json → List Json
  | .array vs => normalEach vs
  | .null => []
  | .bool _ => []
  | .number _ => []
  | .string _ => []
  | .object _ => []
termination_by structural v => v

/-- The normal forms of the members of a map of nodes. -/
def normalNodeMap : Json → List (String × Json)
  | .object members => normalNamed members
  | .null => []
  | .bool _ => []
  | .number _ => []
  | .string _ => []
  | .array _ => []
termination_by structural v => v

/-- The known keywords of a node one by one. -/
def normalMembers : List (String × Json) → List (String × Option Json)
  | [] => []
  | (name, v) :: rest =>
    (name, normalMember name v ⟨normalNode v, normalNodes v, normalNodeMap v⟩) ::
      normalMembers rest
termination_by structural members => members

def normalEach : List Json → List Json
  | [] => []
  | v :: vs => normalNode v :: normalEach vs
termination_by structural vs => vs

def normalNamed : List (String × Json) → List (String × Json)
  | [] => []
  | (name, v) :: rest => (name, normalNode v) :: normalNamed rest
termination_by structural members => members

end

/-- The normal forms of a value in its three readings. -/
def normalParts (v : Json) : NormalParts := ⟨normalNode v, normalNodes v, normalNodeMap v⟩

end Json

end StrictSchema
