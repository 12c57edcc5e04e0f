import StrictSchema.Proofs.Json.Agreement
import StrictSchema.Proofs.Schema.Equality
import StrictSchema.Proofs.Schema.Fields
import StrictSchema.Proofs.Schema.Grammar

/-!
# Reading members in another order

Values that are equal up to the order of members are read as equal schemas, or neither is read
(`Schema.readSame`). A member is found under its name whatever the order is, so the two nodes
are compared keyword by keyword; only which error is the first depends on the order.
-/

namespace StrictSchema

open Json

/-! ## Values that are no schemas -/

theorem agree_orNoForm {α : Type} {R : α → α → Prop} {x y : Decoded α} (name : String)
    (agree : Agree AnyErrors R x y) :
    Agree AnyErrors R (Schema.orNoForm name x) (Schema.orNoForm name y) := by
  cases agree with
  | error => exact .error trivial
  | ok related => exact .ok related

section Values

variable {v w : Json} (same : v.equiv w)
include same

theorem Json.isNull_eq_of_equiv : v.isNull = w.isNull := by
  cases v <;> cases w <;> first | rfl | cases same

theorem agree_decodeBool : Agree AnyErrors Eq (decodeBool v) (decodeBool w) := by
  cases v <;> cases w
  case bool.bool => exact .ok (beq_iff_eq.1 same)
  all_goals first | exact .error trivial | cases same

theorem agree_decodeString : Agree AnyErrors Eq (decodeString v) (decodeString w) := by
  cases v <;> cases w
  case string.string => exact .ok (beq_iff_eq.1 same)
  all_goals first | exact .error trivial | cases same

theorem agree_decodeNumber :
    Agree AnyErrors (fun m n => m.equiv n) (decodeNumber v) (decodeNumber w) := by
  cases v <;> cases w
  case number.number => exact .ok same
  all_goals first | exact .error trivial | cases same

theorem agree_decodeWord : Agree AnyErrors Eq (decodeWord v) (decodeWord w) := by
  cases v <;> cases w
  case number.number m n =>
    cases m <;> cases n
    case integer.integer m fits n fits' =>
      obtain rfl : m = n := beq_iff_eq.1 same
      exact (Agree.self _).anyErrors
    all_goals first | exact .error trivial | cases same
  all_goals first | exact .error trivial | cases same

theorem agree_decodeList :
    Agree AnyErrors (List.Forall₂ fun v w => v.equiv w) (decodeList v) (decodeList w) := by
  cases v <;> cases w
  case array.array => exact .ok (equiv_array_iff.1 same)
  all_goals first | exact .error trivial | cases same

omit same in
theorem agree_decodeEach {α : Type} {R : α → α → Prop} {read : Json → Decoded α}
    {vs ws : List Json}
    (each : List.Forall₂ (fun v w => Agree AnyErrors R (read v) (read w)) vs ws) :
    Agree AnyErrors (List.Forall₂ R) (decodeEach read vs) (decodeEach read ws) := by
  induction each with
  | nil => exact .ok .nil
  | cons first _ ih =>
    exact first.bind fun _ _ ha => ih.bind fun _ _ hrest => .ok (.cons ha hrest)

theorem agree_decodeStrings : Agree AnyErrors Eq (decodeStrings v) (decodeStrings w) := by
  cases v <;> cases w
  case array.array vs ws =>
    have each := (equiv_array_iff.1 same).imp fun _ _ => agree_decodeString
    refine (agree_decodeEach each).imp fun a b aligned => ?_
    rwa [List.forall₂_eq_eq_eq] at aligned
  all_goals first | exact .error trivial | cases same

omit same in
theorem decode_types_array (vs : List Json) : TypeTags.decode (.array vs) =
    Schema.orNoForm "Repr" ((decodeStrings (.array vs)).map .many) := by
  unfold TypeTags.decode
  dsimp only
  cases decodeStrings (.array vs) <;> rfl

theorem agree_decodeTypes : Agree AnyErrors Eq (TypeTags.decode v) (TypeTags.decode w) := by
  cases v <;> cases w
  case string.string => exact .ok (congrArg TypeTags.single (beq_iff_eq.1 same))
  case array.array vs ws =>
    rw [decode_types_array, decode_types_array]
    have names := (agree_decodeStrings same).map fun _ _ => congrArg TypeTags.many
    exact agree_orNoForm "Repr" names
  all_goals first | exact .error trivial | cases same

end Values

namespace Schema

/-! ## Values that are schemas -/

/-- The nodes that both values are read as are equal, however they are read. -/
structure ReadSame (v w : Json) : Prop where
  node : Agree AnyErrors (fun s t => s.equiv t) (decode v) (decode w)
  nodes : Agree AnyErrors (List.Forall₂ fun s t => s.equiv t) (decodeNodes v) (decodeNodes w)
  nodeMap : Agree AnyErrors (Members.Rel fun s t => s.equiv t) (decodeNodeMap v) (decodeNodeMap w)

section Keyword

variable {v w : Json} (same : v.equiv w)

include same in
theorem agree_unlessNull {α : Type} {R : α → α → Prop} {read other : Unit → Decoded α}
    (agree : Agree AnyErrors R (read ()) (other ())) :
    Agree AnyErrors (Option.Rel R) (unlessNull v read) (unlessNull w other) := by
  rw [unlessNull_eq, unlessNull_eq, isNull_eq_of_equiv same]
  split_ifs
  · exact .ok .none
  · exact agree.map fun _ _ => .some

include same in
theorem agree_nullable {α : Type} {R : α → α → Prop} {read : Json → Decoded α}
    (agree : Agree AnyErrors R (read v) (read w)) :
    Agree AnyErrors (Option.Rel R) (nullable read v) (nullable read w) := by
  rw [nullable_eq_unlessNull, nullable_eq_unlessNull]
  exact agree_unlessNull same agree

include same in
theorem agree_nullable_eq {α : Type} {read : Json → Decoded α}
    (agree : Agree AnyErrors Eq (read v) (read w)) :
    Agree AnyErrors Eq (nullable read v) (nullable read w) := by
  refine (agree_nullable same agree).imp fun x y rel => ?_
  cases rel with
  | some eq => exact congrArg some eq
  | none => rfl

variable (parts : ReadSame v w)
include same parts

theorem agree_readItems : Agree AnyErrors (Items.Rel fun s t => s.equiv t)
    (readItems v (readings v)) (readItems w (readings w)) := by
  refine agree_orNoForm "Items" ?_
  cases v <;> cases w
  case array.array => exact parts.nodes.map fun _ _ rel => .tuple rel
  all_goals first | exact parts.node.map fun _ _ rel => Items.Rel.single rel | cases same

theorem agree_readAdditionalProperties :
    Agree AnyErrors (AdditionalProperties.Rel fun s t => s.equiv t)
      (readAdditionalProperties v (readings v)) (readAdditionalProperties w (readings w)) := by
  refine agree_orNoForm "AdditionalProperties" ?_
  cases v <;> cases w
  case bool.bool =>
    obtain rfl := beq_iff_eq.1 same
    exact .ok (.allowed _)
  all_goals first
    | exact parts.node.map fun _ _ rel => AdditionalProperties.Rel.schema rel
    | cases same

/-- A keyword that has equal values is read as the same by two nodes. -/
theorem agree_readKeyword_sameAt (u u' : Schema) (k : Keyword) :
    Agree AnyErrors (fun s t => SameAt s t k) (readKeyword u v (readings v) k)
      (readKeyword u' w (readings w) k) := by
  cases k with
  | type => exact (agree_decodeTypes same).map fun _ _ => id
  | anyOf => exact parts.nodes.map fun _ _ => id
  | properties => exact parts.nodeMap.map fun _ _ => id
  | required => exact (agree_decodeStrings same).map fun _ _ => id
  | const => exact .ok (.some same)
  | format => exact (agree_nullable_eq same (agree_decodeString same)).map fun _ _ => id
  | items => exact (agree_unlessNull same (agree_readItems same parts)).map fun _ _ => id
  | additionalProperties =>
    exact (agree_unlessNull same (agree_readAdditionalProperties same parts)).map fun _ _ => id
  | not | contains | additionalItems =>
    exact (agree_unlessNull same parts.node).map fun _ _ => id
  | patternProperties => exact (agree_unlessNull same parts.nodeMap).map fun _ _ => id
  | allOf | oneOf | prefixItems => exact (agree_unlessNull same parts.nodes).map fun _ _ => id
  | uniqueItems | deprecated | readOnly => exact (agree_decodeBool same).map fun _ _ => id
  | examples => exact (agree_decodeList same).map fun _ _ => id
  | minLength | maxLength | minItems | maxItems =>
    exact (agree_nullable_eq same (agree_decodeWord same)).map_map fun _ _ => id
  | pattern => exact (agree_nullable_eq same (agree_decodeString same)).map_map fun _ _ => id
  | multipleOf | maximum | exclusiveMaximum | minimum | exclusiveMinimum =>
    exact (agree_nullable same (agree_decodeNumber same)).map_map fun _ _ => id

end Keyword

/-! ## Nodes -/

theorem sameAt_just {s t : Schema} {k : Keyword} :
    SameAt s t k ↔ SameAt (s.just k) (t.just k) k := by
  cases k <;> exact Iff.rfl

section Node

variable {ms ns : List (String × Json)} (once : (Members.names ms).Nodup)
  (same : Members.Rel (fun v w => v.equiv w) ms ns)
include once same

/-- A property of names and values that does not tell equal values apart holds of the members in one
order if it holds of them in the other. -/
theorem forall_mem_congr {P : String → Json → Prop}
    (congr : ∀ m ∈ ms, ∀ w, m.2.equiv w → (P m.1 m.2 ↔ P m.1 w)) :
    (∀ m ∈ ms, P m.1 m.2) ↔ ∀ n ∈ ns, P n.1 n.2 := by
  constructor
  · intro each n hn
    obtain ⟨m, hm, name, eq⟩ := same.exists_of_mem_right once hn
    exact name ▸ (congr m hm n.2 eq).1 (each m hm)
  · intro each m hm
    obtain ⟨w, found, eq⟩ := same.found m hm
    exact (congr m hm w eq).2 (each (m.1, w) (Members.mem_of_find? found))

variable (parts : ∀ m ∈ ms, ∀ w, m.2.equiv w → ReadSame m.2 w)
include parts

theorem agree_decodeNamedNodes : Agree AnyErrors (Members.Rel fun s t => s.equiv t)
    (decodeNamedNodes ms) (decodeNamedNodes ns) := by
  refine .of_isOk_iff ?_ fun ps qs hps hqs => ?_
  · rw [isOk_decodeNamedNodes fun m _ => isExact_readings m.2, Shape.fits_mapOf_object,
      isOk_decodeNamedNodes fun n _ => isExact_readings n.2, Shape.fits_mapOf_object]
    refine forall_mem_congr (P := fun _ v => Shape.schema.Fits v) once same fun m hm w eq => ?_
    rw [← isOk_decode, ← isOk_decode]
    exact (parts m hm w eq).node.isOk_iff
  · have left := decodeNamedNodes_eq_ok_iff.1 hps
    have right := decodeNamedNodes_eq_ok_iff.1 hqs
    refine ⟨?_, fun p hp => ?_⟩
    · rw [← left.length_eq, ← right.length_eq, same.length]
    · obtain ⟨m, hm, name, read⟩ := exists_of_mem_right left hp
      obtain ⟨w, found, eq⟩ := same.found m hm
      obtain ⟨q, hq, name', read'⟩ := exists_of_mem_left right (Members.mem_of_find? found)
      have names := Members.names_eq_of_forall₂ (R := fun v s => decode v = .ok s) right
      have distinct : (Members.names qs).Nodup := names.symm ▸ same.nodup once
      have agree := (parts m hm w eq).node
      rw [read, read'] at agree
      exact ⟨q.2, name ▸ name' ▸ Members.find?_of_mem distinct hq, agree.related⟩

theorem isOk_decodeMembers_iff :
    (decodeMembers {} ms).isOk ↔ (decodeMembers {} ns).isOk := by
  rw [isOk_decodeMembers fun m _ => isExact_readings m.2, Shape.fits_schema_object,
    isOk_decodeMembers fun n _ => isExact_readings n.2, Shape.fits_schema_object]
  refine forall_mem_congr
    (P := fun name v => ∀ k, Keyword.ofName? name = some k → k.shape.Fits v) once same
    fun m hm w eq => forall₂_congr fun k _ => ?_
  rw [← isOk_readKeyword (isExact_readings m.2) {}, ← isOk_readKeyword (isExact_readings w) {}]
  exact (agree_readKeyword_sameAt eq (parts m hm w eq) {} {} k).isOk_iff

/-- The nodes have the same under a keyword, since both have it from equal members or not at all. -/
theorem sameAt_of_decodeMembers {s t : Schema} (hs : decodeMembers {} ms = .ok s)
    (ht : decodeMembers {} ns = .ok t) (k : Keyword) : SameAt s t k := by
  have names := (same.names_perm once).mem_iff (a := k.name)
  rw [sameAt_just]
  rcases just_of_decodeMembers hs k with ⟨absent, left⟩ | ⟨v, hv, a, b, read, left⟩
  · rcases just_of_decodeMembers ht k with ⟨-, right⟩ | ⟨w, hw, -⟩
    · rw [left, right, ← sameAt_just]
      exact sameAt_empty k
    · exact absurd (names.2 (List.mem_map_of_mem hw)) absent
  · rcases just_of_decodeMembers ht k with ⟨absent, -⟩ | ⟨w, hw, a', b', read', right⟩
    · exact absurd (names.1 (List.mem_map_of_mem hv)) absent
    · have eq : v.equiv w := same.related once hv hw rfl
      have agree := agree_readKeyword_sameAt eq (parts _ hv w eq) a a' k
      rw [read, read'] at agree
      rw [left, right, ← sameAt_just]
      exact agree.related

theorem agree_decodeMembers_equiv :
    Agree AnyErrors (fun s t => s.equiv t) (decodeMembers {} ms) (decodeMembers {} ns) := by
  refine .of_isOk_iff (isOk_decodeMembers_iff once same parts) fun s t hs ht => ?_
  refine equiv_iff.2 ⟨sameAt_of_decodeMembers once same parts hs ht, ?_⟩
  rw [extra_of_decodeMembers hs, extra_of_decodeMembers ht]
  exact same.filter once fun name => (Keyword.ofName? name).isNone

end Node

theorem agree_decodeEachNode {vs ws : List Json} (parts : List.Forall₂ ReadSame vs ws) :
    Agree AnyErrors (List.Forall₂ fun s t => s.equiv t) (decodeEachNode vs)
      (decodeEachNode ws) := by
  induction parts with
  | nil => exact .ok .nil
  | cons first _ ih =>
    exact first.node.bind fun _ _ hs => ih.map fun _ _ hrest => List.Forall₂.cons hs hrest

/-- Values that are equal up to the order of members are read as the same. -/
theorem readSame {v : Json} (distinct : v.DistinctNames) {w : Json} (same : v.equiv w) :
    ReadSame v w := by
  induction v using Json.induction generalizing w with
  | null | number | string =>
    cases w <;> first | exact ⟨.error trivial, .error trivial, .error trivial⟩ | cases same
  | bool b =>
    cases w with
    | bool c =>
      obtain rfl : b = c := beq_iff_eq.1 same
      refine ⟨?_, .error trivial, .error trivial⟩
      cases b <;> exact .ok rfl
    | _ => cases same
  | array vs ih =>
    cases w with
    | array ws =>
      have parts : List.Forall₂ ReadSame vs ws := by
        have each : ∀ x ∈ vs, ∀ y, x.equiv y → ReadSame x y :=
          fun x hx y eq => ih x hx (eachDistinct_iff.1 distinct x hx) eq
        have aligned := (List.forall₂_and_left vs ws).2 ⟨each, equiv_array_iff.1 same⟩
        exact aligned.imp fun x y both => both.1 y both.2
      exact ⟨.error trivial, agree_decodeEachNode parts, .error trivial⟩
    | _ => cases same
  | object ms ih =>
    cases w with
    | object ns =>
      have members := equiv_object_iff.1 same
      have parts : ∀ m ∈ ms, ∀ y, m.2.equiv y → ReadSame m.2 y :=
        fun m hm y eq => ih m hm (membersDistinct_iff.1 distinct.2 m hm) eq
      exact ⟨agree_decodeMembers_equiv distinct.1 members parts, .error trivial,
        agree_decodeNamedNodes distinct.1 members parts⟩
    | _ => cases same

end Schema

end StrictSchema
