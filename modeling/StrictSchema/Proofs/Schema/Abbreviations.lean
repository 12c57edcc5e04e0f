import Mathlib.Logic.Relation
import StrictSchema.Proofs.Json.Agreement
import StrictSchema.Proofs.Schema.Grammar

/-!
# Booleans as abbreviations

A boolean in the place of a schema abbreviates an object: true the one without members, false the
one that negates it. `Shape.WritesOut` writes one such boolean out, wherever schemas stand in a
value. Under `additionalProperties` a boolean is no schema, so that it is written out only on
request. What is read stays alike (`Schema.ReadAlike`) as seen by any function of schemas that sees
of a node only its own fields and what the function makes of the parts (`Schema.Alike`).
-/

namespace StrictSchema

open Json

/-- A boolean in the place of a schema is written out, in a value of the given shape. Booleans under
`additionalProperties` are written out only if that is to be done everywhere. -/
inductive Shape.WritesOut (everywhere : Prop) : Shape → Json → Json → Prop where
  | always : WritesOut everywhere .schema (.bool true) (.object [])
  | never : WritesOut everywhere .schema (.bool false) (.object [("not", .object [])])
  | member (before after : List (String × Json)) {name : String} {v w : Json} {k : Keyword}
      (known : Keyword.ofName? name = some k)
      (own : k = .additionalProperties → everywhere ∨ ∀ b, v ≠ .bool b)
      (value : WritesOut everywhere k.shape v w) :
      WritesOut everywhere .schema (.object (before ++ (name, v) :: after))
        (.object (before ++ (name, w) :: after))
  | sameItems {v w : Json} (schema : WritesOut everywhere .schema v w) :
      WritesOut everywhere .items v w
  | tuple {v w : Json} (schemas : WritesOut everywhere (.listOf .schema) v w) :
      WritesOut everywhere .items v w
  | element (before after : List Json) {v w : Json} (schema : WritesOut everywhere .schema v w) :
      WritesOut everywhere (.listOf .schema) (.array (before ++ v :: after))
        (.array (before ++ w :: after))
  | value (before after : List (String × Json)) {name : String} {v w : Json}
      (schema : WritesOut everywhere .schema v w) :
      WritesOut everywhere (.mapOf .schema) (.object (before ++ (name, v) :: after))
        (.object (before ++ (name, w) :: after))
  | present {s : Shape} {v w : Json} (value : WritesOut everywhere s v w) :
      WritesOut everywhere (.nullOr s) v w

/-- Any number of booleans is written out in a value that is to be a schema. -/
def Json.WritesOut (everywhere : Prop) (v w : Json) : Prop :=
  Relation.ReflTransGen (Shape.WritesOut everywhere .schema) v w

section

variable {everywhere : Prop} {v w : Json}

theorem Shape.WritesOut.eq_object (h : WritesOut everywhere .schema v w) :
    ∃ members, w = .object members := by
  cases h with
  | always | never | member => exact ⟨_, rfl⟩

theorem Shape.WritesOut.ne_array (h : WritesOut everywhere .schema v w) (vs : List Json) :
    v ≠ .array vs := by
  cases h with
  | always | never | member => nofun

theorem Shape.WritesOut.isNull {s : Shape} (h : WritesOut everywhere s v w) :
    v.isNull = false ∧ w.isNull = false := by
  induction h with
  | always | never | member | element | value => exact ⟨rfl, rfl⟩
  | sameItems _ ih | tuple _ ih | present _ ih => exact ih

end

namespace Schema

section ReadAlike

variable {α : Type} (f : Schema → α)

/-- As far as `f` sees it, both values are read as the same if they are to have the given shape. -/
def ReadAlike : Shape → Json → Json → Prop
  | .schema, v, w => (decode v).map f = (decode w).map f
  | .listOf .schema, v, w => (decodeNodes v).map (List.map f) = (decodeNodes w).map (List.map f)
  | .mapOf .schema, v, w =>
    (decodeNodeMap v).map (List.map (Prod.map id f)) =
      (decodeNodeMap w).map (List.map (Prod.map id f))
  | .items, v, w =>
    (readItems v (readings v)).map (Items.map f) = (readItems w (readings w)).map (Items.map f)
  | .nullOr s, v, w => v.isNull = w.isNull ∧ ReadAlike s v w
  | _, v, w => v = w

theorem readAlike_self (s : Shape) (v : Json) : ReadAlike f s v v := by
  induction s with
  | nullOr s ih => exact ⟨rfl, ih⟩
  | listOf s | mapOf s => cases s <;> rfl
  | _ => rfl

end ReadAlike

section Values

variable {α β γ δ : Type} {f : Schema → α} {v w : Json}

theorem map_map (g : β → γ) (h : γ → δ) (x : Decoded β) : (x.map g).map h = x.map (h ∘ g) := by
  cases x <;> rfl

theorem map_orNoForm (g : β → γ) (name : String) (x : Decoded β) :
    (orNoForm name x).map g = orNoForm name (x.map g) := by
  cases x <;> rfl

theorem map_unlessNull {g : β → γ} {read other : Unit → Decoded β} (null : v.isNull = w.isNull)
    (same : (read ()).map g = (other ()).map g) :
    (unlessNull v read).map (Option.map g) = (unlessNull w other).map (Option.map g) := by
  rw [unlessNull_eq, unlessNull_eq, null]
  split_ifs
  · rfl
  · rw [map_map, map_map]
    exact (map_map g some _).symm.trans ((congrArg (Except.map some) same).trans (map_map g some _))

theorem map_cons (f : γ → δ) (x : Decoded β) (g : β → γ) (xs : Decoded (List γ)) :
    (x.bind fun a => xs.map (g a :: ·)).map (List.map f) =
      (x.map (f ∘ g)).bind fun d => (xs.map (List.map f)).map (d :: ·) := by
  cases x with
  | error e => rfl
  | ok a => cases xs <;> rfl

section

variable (same : (decode v).map f = (decode w).map f)
include same

theorem map_decodeEachNode (before after : List Json) :
    (decodeEachNode (before ++ v :: after)).map (List.map f) =
      (decodeEachNode (before ++ w :: after)).map (List.map f) := by
  induction before with
  | nil =>
    rw [List.nil_append, List.nil_append, decodeEachNode, decodeEachNode]
    refine (map_cons f _ id _).trans (.trans ?_ (map_cons f _ id _).symm)
    rw [Function.comp_id, same]
  | cons x before ih =>
    rw [List.cons_append, List.cons_append, decodeEachNode, decodeEachNode]
    refine (map_cons f _ id _).trans (.trans ?_ (map_cons f _ id _).symm)
    rw [ih]

theorem map_decodeNamedNodes (before after : List (String × Json)) (name : String) :
    (decodeNamedNodes (before ++ (name, v) :: after)).map (List.map (Prod.map id f)) =
      (decodeNamedNodes (before ++ (name, w) :: after)).map (List.map (Prod.map id f)) := by
  induction before with
  | nil =>
    rw [List.nil_append, List.nil_append, decodeNamedNodes, decodeNamedNodes]
    have named : Prod.map id f ∘ Prod.mk name = Prod.mk name ∘ f := rfl
    rw [map_cons _ _ (Prod.mk name), map_cons _ _ (Prod.mk name), named, ← map_map, ← map_map, same]
  | cons m before ih =>
    rw [List.cons_append, List.cons_append, decodeNamedNodes, decodeNamedNodes]
    rw [map_cons _ _ (Prod.mk m.1), map_cons _ _ (Prod.mk m.1), ih]

end

theorem map_readItems (notArray : ∀ vs, v ≠ .array vs) :
    (readItems v (readings v)).map (Items.map f) =
      orNoForm "Items" (((decode v).map f).map .single) := by
  unfold readItems
  rw [map_orNoForm]
  split
  · exact absurd rfl (notArray _)
  · show orNoForm "Items" (((decode v).map Items.single).map (Items.map f)) = _
    rw [map_map, map_map]
    rfl

theorem map_readItems_array (f : Schema → α) (vs : List Json) :
    (readItems (.array vs) (readings (.array vs))).map (Items.map f) =
      orNoForm "Items" (((decodeNodes (.array vs)).map (List.map f)).map .tuple) := by
  show (orNoForm "Items" ((decodeNodes (.array vs)).map Items.tuple)).map (Items.map f) = _
  rw [map_orNoForm, map_map, map_map]
  rfl

theorem map_readAdditionalProperties (notBool : ∀ b, v ≠ .bool b) :
    (readAdditionalProperties v (readings v)).map (AdditionalProperties.map f) =
      orNoForm "AdditionalProperties" (((decode v).map f).map .schema) := by
  unfold readAdditionalProperties
  rw [map_orNoForm]
  split
  · exact absurd rfl (notBool _)
  · show orNoForm _ (((decode v).map AdditionalProperties.schema).map _) = _
    rw [map_map, map_map]
    rfl

/-- A boolean under `additionalProperties` is accepted as one, and would be accepted as a schema. -/
theorem isOk_map_readAdditionalProperties (f : Schema → α) (v : Json) :
    (readAdditionalProperties v (readings v)).map (fun _ => ()) =
      orNoForm "AdditionalProperties" (((decode v).map f).map fun _ => ()) := by
  unfold readAdditionalProperties
  rw [map_orNoForm]
  split
  · next b => cases b <;> rfl
  · show orNoForm _ (((decode v).map AdditionalProperties.schema).map _) = _
    rw [map_map, map_map]
    rfl

/-! ## Values alike under a keyword -/

/-- Neither value is a boolean, unless both are the same. -/
def SameBool (v w : Json) : Prop := v = w ∨ (∀ b, v ≠ .bool b) ∧ ∀ b, w ≠ .bool b

theorem ReadAlike.node (h : ReadAlike f (.nullOr .schema) v w) :
    (unlessNull v (readings v).node).map (Option.map f) =
      (unlessNull w (readings w).node).map (Option.map f) :=
  map_unlessNull h.1 h.2

theorem ReadAlike.nodes (h : ReadAlike f (.nullOr (.listOf .schema)) v w) :
    (unlessNull v (readings v).nodes).map (Option.map (List.map f)) =
      (unlessNull w (readings w).nodes).map (Option.map (List.map f)) :=
  map_unlessNull h.1 h.2

theorem ReadAlike.nodeMap (h : ReadAlike f (.nullOr (.mapOf .schema)) v w) :
    (unlessNull v (readings v).nodeMap).map (Option.map (List.map (Prod.map id f))) =
      (unlessNull w (readings w).nodeMap).map (Option.map (List.map (Prod.map id f))) :=
  map_unlessNull h.1 h.2

theorem ReadAlike.items (h : ReadAlike f (.nullOr .items) v w) :
    (unlessNull v fun _ => readItems v (readings v)).map (Option.map (Items.map f)) =
      (unlessNull w fun _ => readItems w (readings w)).map (Option.map (Items.map f)) :=
  map_unlessNull h.1 h.2

theorem ReadAlike.additionalProperties (h : ReadAlike f (.nullOr .schema) v w)
    (same : SameBool v w) :
    (unlessNull v fun _ => readAdditionalProperties v (readings v)).map
        (Option.map (AdditionalProperties.map f)) =
      (unlessNull w fun _ => readAdditionalProperties w (readings w)).map
        (Option.map (AdditionalProperties.map f)) := by
  rcases same with rfl | ⟨hv, hw⟩
  · rfl
  · refine map_unlessNull h.1 ?_
    have read : (decode v).map f = (decode w).map f := h.2
    rw [map_readAdditionalProperties hv, map_readAdditionalProperties hw, read]

theorem ReadAlike.isOk_additionalProperties (h : ReadAlike f (.nullOr .schema) v w) :
    (unlessNull v fun _ => readAdditionalProperties v (readings v)).map
        (Option.map fun _ => ()) =
      (unlessNull w fun _ => readAdditionalProperties w (readings w)).map
        (Option.map fun _ => ()) := by
  refine map_unlessNull h.1 ?_
  have read : (decode v).map f = (decode w).map f := h.2
  rw [isOk_map_readAdditionalProperties f, isOk_map_readAdditionalProperties f, read]

end Values

/-! ## Nodes alike -/

/-- Two nodes with the same fields, as far as `f` sees the nodes in them. What stands under
`additionalProperties` counts only if booleans are not written out everywhere. -/
structure Alike {α : Type} (everywhere : Prop) (f : Schema → α) (s t : Schema) : Prop where
  types : s.types = t.types
  anyOf : s.anyOf.map f = t.anyOf.map f
  limits : s.limits = t.limits
  format : s.format = t.format
  items : s.items.map (Items.map f) = t.items.map (Items.map f)
  properties : s.properties.map (Prod.map id f) = t.properties.map (Prod.map id f)
  required : s.required = t.required
  additionalProperties : everywhere ∨ s.additionalProperties.map (AdditionalProperties.map f) =
    t.additionalProperties.map (AdditionalProperties.map f)
  not : s.not.map f = t.not.map f
  const : s.const = t.const
  contains : s.contains.map f = t.contains.map f
  uniqueItems : s.uniqueItems = t.uniqueItems
  deprecated : s.deprecated = t.deprecated
  readOnly : s.readOnly = t.readOnly
  patternProperties : s.patternProperties.map (List.map (Prod.map id f)) =
    t.patternProperties.map (List.map (Prod.map id f))
  additionalItems : s.additionalItems.map f = t.additionalItems.map f
  allOf : s.allOf.map (List.map f) = t.allOf.map (List.map f)
  oneOf : s.oneOf.map (List.map f) = t.oneOf.map (List.map f)
  prefixItems : s.prefixItems.map (List.map f) = t.prefixItems.map (List.map f)
  examples : s.examples = t.examples
  extra : s.extra = t.extra

section Step

variable {α : Type} {f : Schema → α} {everywhere : Prop} {u u' : Schema}

theorem Alike.refl (s : Schema) : Alike everywhere f s s := by
  constructor
  case additionalProperties => exact .inr rfl
  all_goals rfl

theorem agree_readKeyword (h : Alike everywhere f u u') {v w : Json} {k : Keyword}
    (value : ReadAlike f k.shape v w)
    (own : k = .additionalProperties → everywhere ∨ SameBool v w) :
    Agree Eq (Alike everywhere f) (readKeyword u v (readings v) k)
      (readKeyword u' w (readings w) k) := by
  cases k with
  | type =>
    obtain rfl : v = w := value
    exact (Agree.self _).map fun _ _ same => { h with types := same }
  | anyOf => exact (Agree.of_map_eq value).map fun _ _ same => { h with anyOf := same }
  | properties => exact (Agree.of_map_eq value).map fun _ _ same => { h with properties := same }
  | required =>
    obtain rfl : v = w := value
    exact (Agree.self _).map fun _ _ same => { h with required := same }
  | const =>
    obtain rfl : v = w := value
    exact .ok { h with const := rfl }
  | format =>
    obtain rfl : v = w := value.2
    exact (Agree.self _).map fun _ _ same => { h with format := same }
  | items => exact (Agree.of_map_eq value.items).map fun _ _ same => { h with items := same }
  | additionalProperties =>
    rcases own rfl with all | same
    · exact (Agree.of_map_eq value.isOk_additionalProperties).map fun _ _ _ =>
        { h with additionalProperties := .inl all }
    · exact (Agree.of_map_eq (value.additionalProperties same)).map fun _ _ same =>
        { h with additionalProperties := .inr same }
  | not => exact (Agree.of_map_eq value.node).map fun _ _ same => { h with not := same }
  | contains => exact (Agree.of_map_eq value.node).map fun _ _ same => { h with contains := same }
  | additionalItems =>
    exact (Agree.of_map_eq value.node).map fun _ _ same => { h with additionalItems := same }
  | patternProperties =>
    exact (Agree.of_map_eq value.nodeMap).map fun _ _ same => { h with patternProperties := same }
  | allOf => exact (Agree.of_map_eq value.nodes).map fun _ _ same => { h with allOf := same }
  | oneOf => exact (Agree.of_map_eq value.nodes).map fun _ _ same => { h with oneOf := same }
  | prefixItems =>
    exact (Agree.of_map_eq value.nodes).map fun _ _ same => { h with prefixItems := same }
  | uniqueItems =>
    obtain rfl : v = w := value
    exact (Agree.self _).map fun _ _ same => { h with uniqueItems := same }
  | deprecated =>
    obtain rfl : v = w := value
    exact (Agree.self _).map fun _ _ same => { h with deprecated := same }
  | readOnly =>
    obtain rfl : v = w := value
    exact (Agree.self _).map fun _ _ same => { h with readOnly := same }
  | examples =>
    obtain rfl : v = w := value
    exact (Agree.self _).map fun _ _ same => { h with examples := same }
  | minLength | maxLength | pattern | multipleOf | maximum | exclusiveMaximum | minimum
  | exclusiveMinimum | minItems | maxItems =>
    obtain rfl : v = w := value.2
    show Agree Eq _ ((readLimit u.limits v _).map _) ((readLimit u'.limits v _).map _)
    rw [h.limits]
    exact (Agree.self _).map fun _ _ same => { h with limits := same }

/-- Two members that are the same, or whose values are read alike under a keyword that both name. -/
def MemberAlike (everywhere : Prop) (f : Schema → α) (m m' : String × Json) : Prop :=
  m = m' ∨ m.1 = m'.1 ∧ ∃ k, Keyword.ofName? m.1 = some k ∧ ReadAlike f k.shape m.2 m'.2 ∧
    (k = .additionalProperties → everywhere ∨ SameBool m.2 m'.2)

theorem agree_readMember (h : Alike everywhere f u u') {m m' : String × Json}
    (alike : MemberAlike everywhere f m m') :
    Agree Eq (Alike everywhere f) (readMember u m.1 m.2 (readings m.2))
      (readMember u' m'.1 m'.2 (readings m'.2)) := by
  rcases alike with rfl | ⟨name, k, known, value, own⟩
  · unfold readMember
    split
    · exact agree_readKeyword h (readAlike_self f _ _) fun _ => .inr (.inl rfl)
    · exact .ok { h with extra := congrArg (· ++ _) h.extra }
  · unfold readMember
    rw [← name, known]
    exact agree_readKeyword h value own

theorem agree_decodeMembers {ms ms' : List (String × Json)}
    (alike : List.Forall₂ (MemberAlike everywhere f) ms ms') (h : Alike everywhere f u u') :
    Agree Eq (Alike everywhere f) (decodeMembers u ms) (decodeMembers u' ms') := by
  induction alike generalizing u u' with
  | nil => exact .ok h
  | cons first _ ih => exact (agree_readMember h first).bind fun _ _ => ih

end Step

/-! ## Writing out -/

section WritesOut

variable {α : Type} {f : Schema → α} {everywhere : Prop} {v w : Json}

theorem memberAlike_of_writesOut {k : Keyword} {name : String}
    (known : Keyword.ofName? name = some k)
    (own : k = .additionalProperties → everywhere ∨ ∀ b, v ≠ .bool b)
    (out : k.shape.WritesOut everywhere v w) (value : ReadAlike f k.shape v w) :
    MemberAlike everywhere f (name, v) (name, w) := by
  refine .inr ⟨rfl, k, known, value, fun hk => (own hk).imp_right fun notBool => ?_⟩
  subst hk
  cases out with
  | present schema =>
    obtain ⟨members, rfl⟩ := schema.eq_object
    exact .inr ⟨notBool, nofun⟩

/-- A function that sees no difference between nodes alike sees none when a boolean is written out.
-/
theorem readAlike_of_writesOut (sees : ∀ s t, Alike everywhere f s t → f s = f t) {s : Shape}
    (h : s.WritesOut everywhere v w) : ReadAlike f s v w := by
  induction h with
  | always | never => rfl
  | @member before after name v w k known own value ih =>
    have members : List.Forall₂ (MemberAlike everywhere f) (before ++ (name, v) :: after)
        (before ++ (name, w) :: after) := by
      have same (ms : List (String × Json)) : List.Forall₂ (MemberAlike everywhere f) ms ms :=
        List.forall₂_same.2 fun _ _ => .inl rfl
      exact List.rel_append (same before)
        (.cons (memberAlike_of_writesOut known own value ih) (same after))
    exact (agree_decodeMembers members (.refl {})).map_eq sees
  | sameItems schema ih =>
    obtain ⟨members, rfl⟩ := schema.eq_object
    have read : (decode _).map f = (decode _).map f := ih
    show (readItems _ _).map _ = (readItems _ _).map _
    rw [map_readItems schema.ne_array, map_readItems (v := .object members) nofun, read]
  | tuple schemas ih =>
    cases schemas with
    | element before after schema =>
      have read : (decodeNodes _).map (List.map f) = (decodeNodes _).map (List.map f) := ih
      show (readItems _ _).map _ = (readItems _ _).map _
      rw [map_readItems_array, map_readItems_array, read]
  | element before after schema ih => exact map_decodeEachNode ih before after
  | value before after schema ih => exact map_decodeNamedNodes ih before after _
  | present value ih => exact ⟨value.isNull.1.trans value.isNull.2.symm, ih⟩

end WritesOut

/-! ## What is decoded -/

theorem Alike.mapParts_eq {f : Schema → Schema} {s t : Schema} (h : Alike False f s t) :
    s.mapParts f = t.mapParts f := by
  have additionalProperties := h.additionalProperties.resolve_left not_false
  simp only [mapParts, h.types, h.anyOf, h.limits, h.format, h.items, h.properties, h.required,
    additionalProperties, h.not, h.const, h.contains, h.uniqueItems, h.deprecated, h.readOnly,
    h.patternProperties, h.additionalItems, h.allOf, h.oneOf, h.prefixItems, h.examples, h.extra]

theorem Alike.eq {s t : Schema} (h : Alike False id s t) : s = t :=
  calc s = s.mapParts id := (mapParts_eq_self fun _ _ => rfl).symm
    _ = t.mapParts id := h.mapParts_eq
    _ = t := mapParts_eq_self fun _ _ => rfl

/-- Nothing changes in what is read when a boolean in the place of a schema is written out. -/
theorem decode_of_writesOut {v w : Json} (h : Json.WritesOut False v w) : decode v = decode w := by
  induction h with
  | refl => rfl
  | tail _ out ih =>
    have same : (decode _).map id = (decode _).map id :=
      readAlike_of_writesOut (f := id) (fun _ _ alike => alike.eq) out
    rw [Except.map_id, id_eq, id_eq] at same
    exact ih.trans same

end Schema

end StrictSchema
