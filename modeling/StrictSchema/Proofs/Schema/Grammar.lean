import StrictSchema.Command.Check
import StrictSchema.Proofs.Schema.Rewriting

/-!
# The grammar of schemas

A boolean is a schema, and so is an object that has a value of the right shape (`Keyword.shape`) for
each keyword among its members (`Shape.Fits`); the shapes of some keywords ask for schemas again.
The values that are read as schemas are exactly these (`Schema.isOk_decode`), whatever compilation
would look at later, so a value that should be a schema and is none (`Shape.Holds`) makes the whole
document fail, however deep it is.
-/

namespace StrictSchema

open Json

/-- A shape of values. -/
inductive Shape where
  | anything
  | flag
  | count
  | number
  | text
  | typeNames
  | schema
  | items
  | listOf (element : Shape)
  | mapOf (value : Shape)
  | nullOr (present : Shape)

/-- The shape of the values of a keyword. -/
def Keyword.shape : Keyword → Shape
  | type => .typeNames
  | anyOf => .listOf .schema
  | minLength | maxLength | minItems | maxItems => .nullOr .count
  | pattern | format => .nullOr .text
  | multipleOf | maximum | exclusiveMaximum | minimum | exclusiveMinimum => .nullOr .number
  | items => .nullOr .items
  | properties => .mapOf .schema
  | required => .listOf .text
  | additionalProperties | not | contains | additionalItems => .nullOr .schema
  | const => .anything
  | uniqueItems | deprecated | readOnly => .flag
  | patternProperties => .nullOr (.mapOf .schema)
  | allOf | oneOf | prefixItems => .nullOr (.listOf .schema)
  | examples => .listOf .anything

namespace Shape

/-- The values of a shape. -/
inductive Fits : Shape → Json → Prop where
  | anything (v : Json) : Fits .anything v
  | flag (b : Bool) : Fits .flag (.bool b)
  /-- An integer of 64 bits without a sign, and no floating-point number. -/
  | count (n : UInt64) : Fits .count (.number (.ofWord n))
  | number (n : Number) : Fits .number (.number n)
  | text (s : String) : Fits .text (.string s)
  | typeName (name : String) : Fits .typeNames (.string name)
  | typeList {v : Json} (names : Fits (.listOf .text) v) : Fits .typeNames v
  | always (b : Bool) : Fits .schema (.bool b)
  /-- Members that are no keywords may have any value. -/
  | node {members : List (String × Json)} (each : ∀ m ∈ members, ∀ k : Keyword,
      Keyword.ofName? m.1 = some k → Fits k.shape m.2) : Fits .schema (.object members)
  | sameItems {v : Json} (schema : Fits .schema v) : Fits .items v
  | tuple {v : Json} (schemas : Fits (.listOf .schema) v) : Fits .items v
  | listOf {s : Shape} {vs : List Json} (each : ∀ v ∈ vs, Fits s v) : Fits (.listOf s) (.array vs)
  | mapOf {s : Shape} {members : List (String × Json)} (each : ∀ m ∈ members, Fits s m.2) :
      Fits (.mapOf s) (.object members)
  | absent (s : Shape) : Fits (.nullOr s) .null
  | present {s : Shape} {v : Json} (value : Fits s v) : Fits (.nullOr s) v

theorem fits_listOf_array {s : Shape} {vs : List Json} :
    Fits (.listOf s) (.array vs) ↔ ∀ v ∈ vs, Fits s v := by
  refine ⟨fun fits => ?_, .listOf⟩
  cases fits with
  | listOf each => exact each

theorem fits_mapOf_object {s : Shape} {members : List (String × Json)} :
    Fits (.mapOf s) (.object members) ↔ ∀ m ∈ members, Fits s m.2 := by
  refine ⟨fun fits => ?_, .mapOf⟩
  cases fits with
  | mapOf each => exact each

theorem fits_schema_object {members : List (String × Json)} :
    Fits .schema (.object members) ↔
      ∀ m ∈ members, ∀ k : Keyword, Keyword.ofName? m.1 = some k → Fits k.shape m.2 := by
  refine ⟨fun fits => ?_, .node⟩
  cases fits with
  | node each => exact each

/-- Whether a value, if it is to have the given shape, has `w` somewhere in the place of a
schema. -/
inductive Holds (w : Json) : Shape → Json → Prop where
  | here : Holds w .schema w
  | member {members : List (String × Json)} {m : String × Json} {k : Keyword} (mem : m ∈ members)
      (name : Keyword.ofName? m.1 = some k) (value : Holds w k.shape m.2) :
      Holds w .schema (.object members)
  | sameItems {v : Json} (single : ∀ vs, v ≠ .array vs) (schema : Holds w .schema v) :
      Holds w .items v
  | tuple {vs : List Json} (schemas : Holds w (.listOf .schema) (.array vs)) :
      Holds w .items (.array vs)
  | listOf {s : Shape} {vs : List Json} {v : Json} (mem : v ∈ vs) (element : Holds w s v) :
      Holds w (.listOf s) (.array vs)
  | mapOf {s : Shape} {members : List (String × Json)} {m : String × Json} (mem : m ∈ members)
      (value : Holds w s m.2) : Holds w (.mapOf s) (.object members)
  | present {s : Shape} {v : Json} (notNull : v ≠ .null) (value : Holds w s v) :
      Holds w (.nullOr s) v

/-- What stands in the place of a schema in a value of its shape is a schema. -/
theorem Holds.fits {w v : Json} {s : Shape} (holds : Holds w s v) (fits : Fits s v) :
    Fits .schema w := by
  induction holds with
  | here => exact fits
  | member mem name _ ih => exact ih (fits_schema_object.1 fits _ mem _ name)
  | sameItems single _ ih =>
    cases fits with
    | sameItems schema => exact ih schema
    | tuple schemas =>
      cases schemas with
      | listOf => exact absurd rfl (single _)
  | tuple _ ih =>
    cases fits with
    | sameItems schema => nomatch schema -- a list is no schema
    | tuple schemas => exact ih schemas
  | listOf mem _ ih => exact ih (fits_listOf_array.1 fits _ mem)
  | mapOf mem _ ih => exact ih (fits_mapOf_object.1 fits _ mem)
  | present notNull _ ih =>
    cases fits with
    | absent => exact absurd rfl notNull
    | present value => exact ih value

end Shape

/-! ## Values that are no schemas -/

section Values

variable {α β : Type} {v : Json}

theorem isOk_map {P : Prop} {f : α → β} {x : Decoded α} (h : x.isOk ↔ P) : (x.map f).isOk ↔ P := by
  cases x <;> exact h

theorem isOk_decodeBool : (decodeBool v).isOk ↔ Shape.flag.Fits v := by
  cases v with
  | bool b => exact iff_of_true rfl (.flag b)
  | _ => exact iff_of_false nofun nofun

theorem isOk_decodeString : (decodeString v).isOk ↔ Shape.text.Fits v := by
  cases v with
  | string s => exact iff_of_true rfl (.text s)
  | _ => exact iff_of_false nofun nofun

theorem isOk_decodeNumber : (decodeNumber v).isOk ↔ Shape.number.Fits v := by
  cases v with
  | number n => exact iff_of_true rfl (.number n)
  | _ => exact iff_of_false nofun nofun

theorem isOk_decodeWord : (decodeWord v).isOk ↔ Shape.count.Fits v := by
  constructor
  · intro read
    cases word : decodeWord v with
    | error e =>
      rw [word] at read
      cases read
    | ok n => exact Schema.count_of_decodeWord word ▸ .count n
  · intro fits
    cases fits with
    | count n => exact congrArg Except.isOk (decodeWord_count n)

theorem isOk_cons {x : Decoded α} {xs : Decoded (List β)} {f : α → β} :
    (x.bind fun a => xs.map (f a :: ·)).isOk ↔ x.isOk ∧ xs.isOk := by
  cases x with
  | error e => exact iff_of_false nofun fun h => nomatch h.1
  | ok a => exact isOk_map (and_iff_right rfl).symm

theorem isOk_decodeEach {read : Json → Decoded α} {vs : List Json} :
    (decodeEach read vs).isOk ↔ ∀ v ∈ vs, (read v).isOk := by
  induction vs with
  | nil => exact iff_of_true rfl nofun
  | cons v vs ih =>
    have step : decodeEach read (v :: vs) =
        (read v).bind fun x => (decodeEach read vs).map (x :: ·) := by
      rw [decodeEach]
      cases read v <;> cases decodeEach read vs <;> rfl
    rw [step, List.forall_mem_cons, ← ih]
    exact isOk_cons

theorem isOk_decodeStrings : (decodeStrings v).isOk ↔ (Shape.listOf .text).Fits v := by
  cases v with
  | array vs =>
    rw [Shape.fits_listOf_array, decodeStrings, isOk_decodeEach]
    exact forall₂_congr fun _ _ => isOk_decodeString
  | _ => exact iff_of_false nofun nofun

theorem isOk_decodeList : (decodeList v).isOk ↔ (Shape.listOf .anything).Fits v := by
  cases v with
  | array vs => exact iff_of_true rfl (.listOf fun v _ => .anything v)
  | _ => exact iff_of_false nofun nofun

theorem isOk_decodeTypes : (TypeTags.decode v).isOk ↔ Shape.typeNames.Fits v := by
  have asList (notText : ∀ name, v ≠ .string name) :
      Shape.typeNames.Fits v ↔ (Shape.listOf .text).Fits v := by
    refine ⟨fun fits => ?_, .typeList⟩
    cases fits with
    | typeName name => exact absurd rfl (notText name)
    | typeList names => exact names
  unfold TypeTags.decode
  split
  · exact iff_of_true rfl (.typeName _)
  · next notText =>
    rw [asList notText, ← isOk_decodeStrings]
    cases decodeStrings v <;> exact Iff.rfl

end Values

namespace Schema

/-! ## Members -/

/-- A value is read as a node, as nodes or as a map of nodes exactly if it is of that shape. -/
structure Readings.IsExact (r : Readings) (v : Json) : Prop where
  node : (r.node ()).isOk ↔ Shape.schema.Fits v
  nodes : (r.nodes ()).isOk ↔ (Shape.listOf .schema).Fits v
  nodeMap : (r.nodeMap ()).isOk ↔ (Shape.mapOf .schema).Fits v

section Members

variable {α : Type} {s : Shape} {v : Json} {r : Readings}

theorem isOk_orNoForm (name : String) (x : Decoded α) : (orNoForm name x).isOk = x.isOk := by
  cases x <;> rfl

theorem isOk_unlessNull {read : Unit → Decoded α} (h : (read ()).isOk ↔ s.Fits v) :
    (unlessNull v read).isOk ↔ (Shape.nullOr s).Fits v := by
  cases v with
  | null => exact iff_of_true rfl (.absent s)
  | _ =>
    refine isOk_map (h.trans ⟨.present, fun fits => ?_⟩)
    cases fits with
    | present value => exact value

theorem isOk_nullable {read : Json → Decoded α} (h : (read v).isOk ↔ s.Fits v) :
    (nullable read v).isOk ↔ (Shape.nullOr s).Fits v := by
  rw [nullable_eq_unlessNull]
  exact isOk_unlessNull h

theorem isOk_readItems (exact : r.IsExact v) : (readItems v r).isOk ↔ Shape.items.Fits v := by
  unfold readItems
  rw [isOk_orNoForm]
  cases v with
  | array vs =>
    refine isOk_map (exact.nodes.trans ⟨.tuple, fun fits => ?_⟩)
    cases fits with
    | sameItems schema => nomatch schema
    | tuple schemas => exact schemas
  | _ =>
    refine isOk_map (exact.node.trans ⟨.sameItems, fun fits => ?_⟩)
    cases fits with
    | sameItems schema => exact schema
    | tuple schemas => nomatch schemas

theorem isOk_readAdditionalProperties (exact : r.IsExact v) :
    (readAdditionalProperties v r).isOk ↔ Shape.schema.Fits v := by
  unfold readAdditionalProperties
  rw [isOk_orNoForm]
  cases v with
  | bool b => exact iff_of_true rfl (.always b)
  | _ => exact isOk_map exact.node

/-- The value of a keyword is read exactly if it is of the shape of the keyword. -/
theorem isOk_readKeyword (exact : r.IsExact v) (u : Schema) (k : Keyword) :
    (readKeyword u v r k).isOk ↔ k.shape.Fits v := by
  cases k with
  | type => exact isOk_map isOk_decodeTypes
  | anyOf => exact isOk_map exact.nodes
  | properties => exact isOk_map exact.nodeMap
  | required => exact isOk_map isOk_decodeStrings
  | examples => exact isOk_map isOk_decodeList
  | const => exact iff_of_true rfl (.anything v)
  | uniqueItems | deprecated | readOnly => exact isOk_map isOk_decodeBool
  | format => exact isOk_map (isOk_nullable isOk_decodeString)
  | pattern => exact isOk_map (isOk_map (isOk_nullable isOk_decodeString))
  | minLength | maxLength | minItems | maxItems =>
    exact isOk_map (isOk_map (isOk_nullable isOk_decodeWord))
  | multipleOf | maximum | exclusiveMaximum | minimum | exclusiveMinimum =>
    exact isOk_map (isOk_map (isOk_nullable isOk_decodeNumber))
  | items => exact isOk_map (isOk_unlessNull (isOk_readItems exact))
  | additionalProperties =>
    exact isOk_map (isOk_unlessNull (isOk_readAdditionalProperties exact))
  | not | contains | additionalItems => exact isOk_map (isOk_unlessNull exact.node)
  | patternProperties => exact isOk_map (isOk_unlessNull exact.nodeMap)
  | allOf | oneOf | prefixItems => exact isOk_map (isOk_unlessNull exact.nodes)

theorem isOk_readMember (exact : r.IsExact v) (u : Schema) (name : String) :
    (readMember u name v r).isOk ↔
      ∀ k : Keyword, Keyword.ofName? name = some k → k.shape.Fits v := by
  unfold readMember
  split
  · next k known =>
    rw [isOk_readKeyword exact u k, known]
    exact ⟨fun fits _ same => Option.some.inj same ▸ fits, fun fits => fits k rfl⟩
  · next unknown =>
    refine iff_of_true rfl fun k known => ?_
    rw [unknown] at known
    cases known

end Members

/-! ## Nodes -/

theorem isOk_decodeMembers {members : List (String × Json)}
    (exact : ∀ m ∈ members, (readings m.2).IsExact m.2) (u : Schema) :
    (decodeMembers u members).isOk ↔ Shape.schema.Fits (.object members) := by
  rw [Shape.fits_schema_object]
  -- the members read before do not matter for the next one, so the induction is over all `u`
  induction members generalizing u with
  | nil => exact iff_of_true rfl nofun
  | cons m rest ih =>
    obtain ⟨first, others⟩ := List.forall_mem_cons.1 exact
    rw [List.forall_mem_cons, ← isOk_readMember first u m.1]
    show ((readMember u m.1 m.2 (readings m.2)).bind (decodeMembers · rest)).isOk ↔ _
    cases readMember u m.1 m.2 (readings m.2) with
    | error e => exact iff_of_false nofun fun h => nomatch h.1
    | ok u => exact (ih others u).trans (and_iff_right rfl).symm

theorem isOk_decodeEachNode {vs : List Json} (exact : ∀ v ∈ vs, (readings v).IsExact v) :
    (decodeEachNode vs).isOk ↔ (Shape.listOf .schema).Fits (.array vs) := by
  rw [Shape.fits_listOf_array]
  induction vs with
  | nil => exact iff_of_true rfl nofun
  | cons v vs ih =>
    obtain ⟨first, others⟩ := List.forall_mem_cons.1 exact
    rw [List.forall_mem_cons, ← ih others, ← first.node]
    exact isOk_cons

theorem isOk_decodeNamedNodes {members : List (String × Json)}
    (exact : ∀ m ∈ members, (readings m.2).IsExact m.2) :
    (decodeNamedNodes members).isOk ↔ (Shape.mapOf .schema).Fits (.object members) := by
  rw [Shape.fits_mapOf_object]
  induction members with
  | nil => exact iff_of_true rfl nofun
  | cons m rest ih =>
    obtain ⟨first, others⟩ := List.forall_mem_cons.1 exact
    rw [List.forall_mem_cons, ← ih others, ← first.node]
    exact isOk_cons

theorem isExact_readings (v : Json) : (readings v).IsExact v := by
  induction v using Json.induction with
  | null | number | string =>
    exact ⟨iff_of_false nofun nofun, iff_of_false nofun nofun, iff_of_false nofun nofun⟩
  | bool b =>
    have read : (decode (.bool b)).isOk := by cases b <;> rfl
    exact ⟨iff_of_true read (.always b), iff_of_false nofun nofun, iff_of_false nofun nofun⟩
  | array vs each =>
    exact ⟨iff_of_false nofun nofun, isOk_decodeEachNode each, iff_of_false nofun nofun⟩
  | object members each =>
    exact ⟨isOk_decodeMembers each {}, iff_of_false nofun nofun, isOk_decodeNamedNodes each⟩

/-- The values that are read as schemas. -/
theorem isOk_decode (v : Json) : (decode v).isOk ↔ Shape.schema.Fits v :=
  (isExact_readings v).node

end Schema

theorem exists_ofJson_iff {v : Json} : (∃ s, Schema.ofJson v = .ok s) ↔ Shape.schema.Fits v := by
  rw [← Schema.isOk_decode, Schema.ofJson]
  cases Schema.decode v with
  | error e => exact iff_of_false nofun nofun
  | ok s => exact iff_of_true ⟨s, rfl⟩ rfl

theorem ofJson_of_not_fits {v : Json} (h : ¬ Shape.schema.Fits v) :
    ∃ e, Schema.ofJson v = .error (.failed (.document (.mismatched e))) := by
  rw [← Schema.isOk_decode] at h
  rw [Schema.ofJson]
  cases read : Schema.decode v with
  | error e => exact ⟨e, rfl⟩
  | ok s =>
    rw [read] at h
    exact absurd rfl h

/-- A value is a schema exactly if it is of the shape of schemas. If it has anything else in the
place of a schema, however deep, the whole value is refused. -/
theorem ofJson_grammar (v : Json) :
    ((∃ s, Schema.ofJson v = .ok s) ↔ Shape.schema.Fits v) ∧
    ∀ w, Shape.Holds w .schema v → ¬ Shape.schema.Fits w →
      ∃ e, Schema.ofJson v = .error (.failed (.document (.mismatched e))) :=
  ⟨exists_ofJson_iff, fun _ holds misfit =>
    ofJson_of_not_fits fun fits => misfit (holds.fits fits)⟩

/-- A bound below all lengths. -/
def negativeLength : Json := .object [("minLength", .number (.integer (-1) (by decide)))]

/-- A string schema with a fault under `not`, which compilation drops. -/
def hiddenFault : Json :=
  .object [("type", .string "string"),
    ("not", .object [("items", .array [.bool true, negativeLength])])]

theorem holds_hiddenFault : Shape.Holds negativeLength .schema hiddenFault := by
  have tuple : Shape.Holds negativeLength .items (.array [.bool true, negativeLength]) :=
    .tuple (.listOf (List.mem_cons_of_mem _ List.mem_cons_self) .here)
  have items : Shape.Holds negativeLength .schema
      (.object [("items", .array [.bool true, negativeLength])]) :=
    .member (k := .items) List.mem_cons_self rfl (.present nofun tuple)
  exact .member (k := .not) (List.mem_cons_of_mem _ List.mem_cons_self) rfl (.present nofun items)

theorem ofJson_hiddenFault :
    Shape.Holds negativeLength .schema hiddenFault ∧ ¬ Shape.schema.Fits negativeLength ∧
      ∃ e, Schema.ofJson hiddenFault = .error (.failed (.document (.mismatched e))) := by
  have misfit : ¬ Shape.schema.Fits negativeLength := by
    rw [← Schema.isOk_decode]
    decide
  exact ⟨holds_hiddenFault, misfit,
    (ofJson_grammar hiddenFault).2 negativeLength holds_hiddenFault misfit⟩

end StrictSchema
