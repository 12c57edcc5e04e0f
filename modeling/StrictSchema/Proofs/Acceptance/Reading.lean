import StrictSchema.Compilation.Compile

/-!
# Which values a schema accepts

`Reading.accepts` reads a schema as a set of JSON values. A choice accepts what one of its
alternatives accepts, whatever stands beside them. Any other node accepts a value of one of its
types that keeps the bounds and the format; the members of an object are the required ones and
declared ones only, each accepted by its property, and the elements of an array are accepted by the
items. What a reading is free to decide is gathered in `Reading`: which numbers are integers, how
bounds, patterns and formats judge a string, a number or the length of an array, and how many
elements a tuple wants.
-/

namespace StrictSchema

/-- How the keywords are read that look at single strings, numbers and lengths only. -/
structure Reading where
  isInteger : Number → Bool
  string : Limits → Option String → String → Bool
  number : Limits → Number → Bool
  length : Limits → Nat → Bool
  /-- Whether a tuple of so many schemas takes so many elements. -/
  tuple : Nat → Nat → Bool

namespace Reading

/-- The reading under which only types and shapes count, and a tuple takes one element for each of
its schemas. -/
def shapes : Reading where
  isInteger
    | .integer _ _ => true
    | .float _ => false
  string _ _ _ := true
  number _ _ := true
  length _ _ := true
  tuple schemas elements := schemas == elements

/-- The type names that hold of a value; no unsupported name does. -/
def typesOf (R : Reading) : Json → List String
  | .null => ["null"]
  | .bool _ => ["boolean"]
  | .number n => if R.isInteger n then ["number", "integer"] else ["number"]
  | .string _ => ["string"]
  | .array _ => ["array"]
  | .object _ => ["object"]

/-- Whether one of the names holds of the value. -/
def hasType (R : Reading) (types : TypeTags) (v : Json) : Bool :=
  types.names.any (R.typesOf v).contains

/-- Whether the value keeps the bounds and the format. -/
def keepsLimits (R : Reading) (limits : Limits) (format : Option String) : Json → Bool
  | .number n => R.number limits n
  | .string text => R.string limits format text
  | .array vs => R.length limits vs.length
  | _ => true

/-- Whether a node without alternatives accepts a value, given what its properties and its items
accept. -/
def acceptsNode (R : Reading) (s : Schema) (property : String → Json → Bool)
    (items : List Json → Bool) (v : Json) : Bool :=
  R.hasType s.types v && R.keepsLimits s.limits s.usedFormat v &&
    match v with
    | .object ms =>
      s.required.all (Members.names ms).contains && ms.all fun m => property m.1 m.2
    | .array vs => items vs
    | _ => true

mutual

/-- Whether the schema accepts the value. -/
def accepts (R : Reading) : Schema → Json → Bool
  | s@{ anyOf, items, properties, .. }, v =>
    if anyOf.isEmpty then R.acceptsNode s (acceptsProperty R properties) (acceptsItems R items) v
    else acceptsSome R anyOf v
termination_by structural s => s

/-- Whether one of the schemas accepts the value. -/
def acceptsSome (R : Reading) : List Schema → Json → Bool
  | [], _ => false
  | s :: rest, v => accepts R s v || acceptsSome R rest v
termination_by structural ss => ss

/-- Whether there is a property of the name that accepts the value. -/
def acceptsProperty (R : Reading) : List (String × Schema) → String → Json → Bool
  | [], _, _ => false
  | (n, s) :: rest, name, v => (n == name && accepts R s v) || acceptsProperty R rest name v
termination_by structural ps => ps

/-- Whether the items accept the elements; absent items accept all. -/
def acceptsItems (R : Reading) : Option (Items Schema) → List Json → Bool
  | none, _ => true
  | some (.single s), vs => vs.all fun v => accepts R s v
  | some (.tuple ss), vs => R.tuple ss.length vs.length && acceptsEach R ss vs
termination_by structural items => items

/-- Whether the schemas accept the values position by position, as far as both go. -/
def acceptsEach (R : Reading) : List Schema → List Json → Bool
  | s :: ss, v :: vs => accepts R s v && acceptsEach R ss vs
  | _, _ => true
termination_by structural ss => ss

end

/-! ## The definition in terms of membership -/

variable {R : Reading}

theorem hasType_iff {types : TypeTags} {v : Json} :
    R.hasType types v ↔ ∃ name ∈ types.names, name ∈ R.typesOf v := by
  simp [hasType]

theorem mem_supportedTypes_of_mem_typesOf {v : Json} {name : String} (h : name ∈ R.typesOf v) :
    name ∈ supportedTypes := by
  have hall : ∀ name ∈ R.typesOf v, name ∈ supportedTypes := by
    cases v with
    | number n =>
      rw [typesOf]
      split <;> decide
    | _ => exact List.forall_mem_singleton.2 (by decide)
  exact hall name h

theorem eq_null_of_mem_typesOf {v : Json} (h : "null" ∈ R.typesOf v) : v = .null := by
  cases v with
  | number n =>
    rw [typesOf] at h
    split at h <;> exact absurd h (by decide)
  | null => rfl
  | _ => exact absurd (List.mem_singleton.1 h) (by decide)

theorem acceptsSome_iff {ss : List Schema} {v : Json} :
    R.acceptsSome ss v ↔ ∃ s ∈ ss, R.accepts s v := by
  induction ss with
  | nil => simp [acceptsSome]
  | cons s rest ih => simp [acceptsSome, ih]

theorem acceptsProperty_iff {ps : List (String × Schema)} {name : String} {v : Json} :
    R.acceptsProperty ps name v ↔ ∃ c, (name, c) ∈ ps ∧ R.accepts c v := by
  induction ps with
  | nil => simp [acceptsProperty]
  | cons p rest ih =>
    obtain ⟨n, s⟩ := p
    simp only [acceptsProperty, Bool.or_eq_true, Bool.and_eq_true, beq_iff_eq, ih, List.mem_cons,
      Prod.mk.injEq]
    constructor
    · rintro (⟨rfl, h⟩ | ⟨c, hc, h⟩)
      · exact ⟨s, .inl ⟨rfl, rfl⟩, h⟩
      · exact ⟨c, .inr hc, h⟩
    · rintro ⟨c, ⟨rfl, rfl⟩ | hc, h⟩
      · exact .inl ⟨rfl, h⟩
      · exact .inr ⟨c, hc, h⟩

theorem accepts_eq (s : Schema) (v : Json) :
    R.accepts s v = if s.anyOf.isEmpty then
      R.acceptsNode s (R.acceptsProperty s.properties) (R.acceptsItems s.items) v
    else R.acceptsSome s.anyOf v := by
  cases s
  rw [accepts]

theorem accepts_choice_iff {s : Schema} (h : s.anyOf ≠ []) {v : Json} :
    R.accepts s v ↔ ∃ c ∈ s.anyOf, R.accepts c v := by
  rw [accepts_eq, if_neg (mt List.isEmpty_iff.1 h), acceptsSome_iff]

/-- The required names are there, and each member is accepted by a property of its name. -/
def AcceptsMembers (R : Reading) (s : Schema) (ms : List (String × Json)) : Prop :=
  (∀ name ∈ s.required, name ∈ Members.names ms) ∧
    ∀ m ∈ ms, ∃ c, (m.1, c) ∈ s.properties ∧ R.accepts c m.2

theorem accepts_node_iff {s : Schema} (h : s.anyOf = []) {v : Json} :
    R.accepts s v ↔ R.hasType s.types v ∧ R.keepsLimits s.limits s.usedFormat v ∧
      (∀ ms, v = .object ms → R.AcceptsMembers s ms) ∧
      ∀ vs, v = .array vs → R.acceptsItems s.items vs := by
  rw [accepts_eq, if_pos (List.isEmpty_iff.2 h)]
  unfold acceptsNode
  rw [Bool.and_eq_true, Bool.and_eq_true, and_assoc]
  refine and_congr_right fun _ => and_congr_right fun _ => ?_
  cases v <;> simp [AcceptsMembers, acceptsProperty_iff]

end Reading

end StrictSchema
