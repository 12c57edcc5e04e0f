import StrictSchema.Proofs.Schema.Documents
import StrictSchema.Proofs.Schema.NormalForm

/-!
# Writing what was read

What a document is read as is written as the normal form of the document (`encode_of_decode`).
Reading a member sets one keyword of the node and leaves the others alone
(`Schema.without_readKeyword`), and the keyword is then written in its normal form or not at all
(`Schema.value?_readKeyword`); an unknown member is kept behind those before it. So reading member
after member leads to the normal form of the node.
-/

namespace StrictSchema

open Json

/-! ## Values that are no schemas -/

theorem Json.isEmptyArray_array (vs : List Json) : (Json.array vs).isEmptyArray = vs.isEmpty := by
  cases vs <;> rfl

theorem eq_strings_of_decodeStrings {v : Json} {texts : List String}
    (h : decodeStrings v = .ok texts) : v = strings texts := by
  have hall : ∀ (vs : List Json) (texts : List String), decodeEach decodeString vs = .ok texts →
      vs = texts.map .string := by
    intro vs
    induction vs with
    | nil =>
      intro texts h
      obtain rfl := Except.ok.inj h
      rfl
    | cons v vs ih =>
      intro texts h
      obtain ⟨text, htext, htail⟩ := bind_eq_ok h
      obtain ⟨rest, hrest, hcons⟩ := bind_eq_ok htail
      obtain rfl := Except.ok.inj hcons
      cases v with
      | string s =>
        obtain rfl := Except.ok.inj htext
        rw [ih rest hrest, List.map_cons]
      | _ => cases htext
  cases v with
  | array vs => exact congrArg Json.array (hall vs texts h)
  | _ => cases h

theorem TypeTags.encode?_of_decode {v : Json} {t : TypeTags} (h : TypeTags.decode v = .ok t) :
    t.encode? = if v.isEmptyArray then none else some v := by
  unfold TypeTags.decode at h
  split at h
  · obtain rfl := Except.ok.inj h
    rfl
  · split at h
    · next hnames =>
      obtain rfl := Except.ok.inj h
      rw [eq_strings_of_decodeStrings hnames, strings, isEmptyArray_array]
      cases ‹List String› <;> rfl
    · cases h

theorem Keyword.name_of_ofName? {name : String} {k : Keyword} (h : ofName? name = some k) :
    k.name = name :=
  beq_iff_eq.1 (List.find?_some (p := fun k : Keyword => k.name == name) h)

theorem Keyword.name_inj {j k : Keyword} (h : j.name = k.name) : j = k := by
  have hname := Keyword.ofName?_name j
  rw [h, Keyword.ofName?_name] at hname
  exact (Option.some.inj hname).symm

namespace Schema

theorem count_of_decodeWord {v : Json} {n : UInt64} (h : decodeWord v = .ok n) : count n = v := by
  unfold decodeWord at h
  split at h
  · next m fits =>
    split_ifs at h with hneg
    obtain rfl := Except.ok.inj h
    have hword : ((UInt64.ofNat m.toNat).toNat : Int) = m := by
      have hlt : m.toNat < 2 ^ 64 := by
        have := fits.2
        simp only [greatestWord] at this
        omega
      rw [UInt64.toNat_ofNat_of_lt' hlt]
      omega
    simp only [count, Number.ofWord, hword]
  · cases h

theorem nonemptyList_of_eq_array {v : Json} {vs : List Json} (h : v = .array vs) :
    nonemptyList vs = if v.isEmptyArray then none else some v := by
  rw [h, isEmptyArray_array, nonemptyList]

theorem flag_of_decodeBool {v : Json} {b : Bool} (h : decodeBool v = .ok b) :
    flag b = if v.isFalse then none else some v := by
  cases v with
  | bool c =>
    obtain rfl := Except.ok.inj h
    cases c <;> rfl
  | _ => cases h

theorem unlessNull_eq_ok {α : Type} {v : Json} {read : Unit → Decoded α} {x : Option α}
    (h : unlessNull v read = .ok x) :
    v.isNull = true ∧ x = none ∨ v.isNull = false ∧ ∃ y, read () = .ok y ∧ x = some y := by
  cases v with
  | null =>
    obtain rfl := Except.ok.inj h
    exact .inl ⟨rfl, rfl⟩
  | _ =>
    obtain ⟨y, hy, rfl⟩ := map_eq_ok h
    exact .inr ⟨rfl, y, hy, rfl⟩

theorem unlessNull_eq {α : Type} (v : Json) (read : Unit → Decoded α) :
    unlessNull v read = if v.isNull then .ok none else (read ()).map some := by
  cases v <;> rfl

theorem nullable_eq_unlessNull {α : Type} (read : Json → Decoded α) (v : Json) :
    nullable read v = unlessNull v fun _ => read v := by
  cases v <;> rfl

/-- An optional value that is written as it was read. -/
theorem map_of_nullable {α : Type} {read : Json → Decoded α} {write : α → Json} {v : Json}
    {x : Option α} (hwrite : ∀ y, read v = .ok y → write y = v) (h : nullable read v = .ok x) :
    x.map write = if v.isNull then none else some v := by
  rw [nullable_eq_unlessNull] at h
  rcases unlessNull_eq_ok h with ⟨hnull, rfl⟩ | ⟨hnull, y, hy, rfl⟩
  · rw [hnull]
    rfl
  · rw [hnull]
    exact congrArg some (hwrite y hy)

theorem eq_string_of_decodeString {v : Json} {text : String} (h : decodeString v = .ok text) :
    .string text = v := by
  cases v with
  | string s => exact congrArg Json.string (Except.ok.inj h).symm
  | _ => cases h

theorem eq_number_of_decodeNumber {v : Json} {n : Number} (h : decodeNumber v = .ok n) :
    .number n = v := by
  cases v with
  | number m => exact congrArg Json.number (Except.ok.inj h).symm
  | _ => cases h

theorem eq_array_of_decodeList {v : Json} {vs : List Json} (h : decodeList v = .ok vs) :
    v = .array vs := by
  cases v with
  | array ws => exact congrArg Json.array (Except.ok.inj h)
  | _ => cases h

/-! ## Values that are schemas -/

/-- Whatever schemas a value is read as, they are written as its normal forms. -/
structure IsNormal (v : Json) : Prop where
  node : ∀ c, decode v = .ok c → c.encode = normalNode v
  nodes : ∀ cs, decodeNodes v = .ok cs → encodeEach cs = normalNodes v
  nodeMap : ∀ ps, decodeNodeMap v = .ok ps → encodeMembers ps = normalNodeMap v

section Parts

variable {v : Json} (hv : IsNormal v)
include hv

theorem IsNormal.encode? {c : Option Schema} (h : unlessNull v (readings v).node = .ok c) :
    Schema.encode? c = if v.isNull then none else some (normalNode v) := by
  rcases unlessNull_eq_ok h with ⟨hnull, rfl⟩ | ⟨hnull, d, hd, rfl⟩
  · rw [hnull]
    rfl
  · rw [hnull]
    exact congrArg some (hv.node d hd)

theorem IsNormal.encodeEach? {cs : Option (List Schema)}
    (h : unlessNull v (readings v).nodes = .ok cs) :
    Schema.encodeEach? cs = if v.isNull then none else some (.array (normalNodes v)) := by
  rcases unlessNull_eq_ok h with ⟨hnull, rfl⟩ | ⟨hnull, ds, hds, rfl⟩
  · rw [hnull]
    rfl
  · rw [hnull]
    exact congrArg (some ∘ Json.array) (hv.nodes ds hds)

theorem IsNormal.encodeMembers? {ps : Option (List (String × Schema))}
    (h : unlessNull v (readings v).nodeMap = .ok ps) :
    Schema.encodeMembers? ps = if v.isNull then none else some (.object (normalNodeMap v)) := by
  rcases unlessNull_eq_ok h with ⟨hnull, rfl⟩ | ⟨hnull, qs, hqs, rfl⟩
  · rw [hnull]
    rfl
  · rw [hnull]
    exact congrArg (some ∘ Json.object) (hv.nodeMap qs hqs)

theorem IsNormal.encodeItems? {items : Option (Items Schema)}
    (h : (unlessNull v fun _ => readItems v (readings v)) = .ok items) :
    Schema.encodeItems? items =
      if v.isNull then none else some (v.normalValue (normalParts v) .items) := by
  rcases unlessNull_eq_ok h with ⟨hnull, rfl⟩ | ⟨hnull, i, hi, rfl⟩
  · rw [hnull]
    rfl
  · rw [hnull]
    have hform := orNoForm_eq_ok hi
    split at hform
    · obtain ⟨ds, hds, rfl⟩ := map_eq_ok hform
      exact congrArg (some ∘ Json.array) (hv.nodes ds hds)
    · next hother =>
      obtain ⟨d, hd, rfl⟩ := map_eq_ok hform
      rw [normalValue_items hother]
      exact congrArg some (hv.node d hd)

theorem IsNormal.encodeAdditionalProperties? {a : Option (AdditionalProperties Schema)}
    (h : (unlessNull v fun _ => readAdditionalProperties v (readings v)) = .ok a) :
    Schema.encodeAdditionalProperties? a =
      if v.isNull then none else some (v.normalValue (normalParts v) .additionalProperties) := by
  rcases unlessNull_eq_ok h with ⟨hnull, rfl⟩ | ⟨hnull, b, hb, rfl⟩
  · rw [hnull]
    rfl
  · rw [hnull]
    have hform := orNoForm_eq_ok hb
    split at hform
    · obtain rfl := Except.ok.inj hform
      rfl
    · next hother =>
      obtain ⟨d, hd, rfl⟩ := map_eq_ok hform
      rw [normalValue_additionalProperties hother]
      exact congrArg some (hv.node d hd)

theorem IsNormal.nonemptyList {cs : List Schema} (h : decodeNodes v = .ok cs) :
    Schema.nonemptyList (encodeEach cs) =
      if v.isEmptyArray then none else some (.array (normalNodes v)) := by
  rw [hv.nodes cs h]
  cases v with
  | array vs => cases vs <;> rfl
  | _ => cases h

theorem IsNormal.nonemptyMap {ps : List (String × Schema)} (h : decodeNodeMap v = .ok ps) :
    Schema.nonemptyMap (encodeMembers ps) =
      if v.isEmptyObject then none else some (.object (normalNodeMap v)) := by
  rw [hv.nodeMap ps h]
  cases v with
  | object members => cases members <;> rfl
  | _ => cases h

end Parts

/-! ## Keyword by keyword -/

/-- The node with all its keywords but one. -/
def without (k : Keyword) (s : Schema) : Schema := s.only fun j => j != k

theorem value?_without (s : Schema) {j k : Keyword} (h : j ≠ k) :
    (s.without k).value? j = s.value? j := by
  have hj : (j != k) = true := bne_iff_ne.2 h
  unfold without only
  cases j <;> simp only [value?, hj, if_true]

section Step

variable {u u' : Schema} {v : Json} {k : Keyword}

/-- Reading a keyword leaves the others alone. -/
theorem without_readKeyword {r : Readings} (h : readKeyword u v r k = .ok u') :
    u'.without k = u.without k ∧ u'.extra = u.extra := by
  cases k with
  | const =>
    obtain rfl := Except.ok.inj h
    exact ⟨rfl, rfl⟩
  | minLength | maxLength | pattern | multipleOf | maximum | exclusiveMaximum | minimum
  | exclusiveMinimum | minItems | maxItems =>
    obtain ⟨l, hl, rfl⟩ := map_eq_ok h
    obtain ⟨x, -, rfl⟩ := map_eq_ok hl
    exact ⟨rfl, rfl⟩
  | _ =>
    obtain ⟨x, -, rfl⟩ := map_eq_ok h
    exact ⟨rfl, rfl⟩

/-- A keyword that was read is written in its normal form, or not at all. -/
theorem value?_readKeyword (hv : IsNormal v) (h : readKeyword u v (readings v) k = .ok u') :
    u'.value? k = if v.saysNothing k then none else some (v.normalValue (normalParts v) k) := by
  cases k with
  | const =>
    obtain rfl := Except.ok.inj h
    rfl
  | type =>
    obtain ⟨types, htypes, rfl⟩ := map_eq_ok h
    exact TypeTags.encode?_of_decode htypes
  | anyOf =>
    obtain ⟨cs, hcs, rfl⟩ := map_eq_ok h
    exact hv.nonemptyList hcs
  | properties =>
    obtain ⟨ps, hps, rfl⟩ := map_eq_ok h
    exact hv.nonemptyMap hps
  | required =>
    obtain ⟨names, hnames, rfl⟩ := map_eq_ok h
    exact nonemptyList_of_eq_array (eq_strings_of_decodeStrings hnames)
  | examples =>
    obtain ⟨vs, hvs, rfl⟩ := map_eq_ok h
    exact nonemptyList_of_eq_array (eq_array_of_decodeList hvs)
  | uniqueItems | deprecated | readOnly =>
    obtain ⟨b, hb, rfl⟩ := map_eq_ok h
    exact flag_of_decodeBool hb
  | format =>
    obtain ⟨x, hx, rfl⟩ := map_eq_ok h
    exact map_of_nullable (fun _ => eq_string_of_decodeString) hx
  | items =>
    obtain ⟨items, hitems, rfl⟩ := map_eq_ok h
    exact hv.encodeItems? hitems
  | additionalProperties =>
    obtain ⟨a, ha, rfl⟩ := map_eq_ok h
    exact hv.encodeAdditionalProperties? ha
  | not | contains | additionalItems =>
    obtain ⟨c, hc, rfl⟩ := map_eq_ok h
    exact hv.encode? hc
  | patternProperties =>
    obtain ⟨ps, hps, rfl⟩ := map_eq_ok h
    exact hv.encodeMembers? hps
  | allOf | oneOf | prefixItems =>
    obtain ⟨cs, hcs, rfl⟩ := map_eq_ok h
    exact hv.encodeEach? hcs
  | minLength | maxLength | minItems | maxItems =>
    obtain ⟨l, hl, rfl⟩ := map_eq_ok h
    obtain ⟨n, hn, rfl⟩ := map_eq_ok hl
    exact map_of_nullable (fun _ => count_of_decodeWord) hn
  | pattern =>
    obtain ⟨l, hl, rfl⟩ := map_eq_ok h
    obtain ⟨x, hx, rfl⟩ := map_eq_ok hl
    exact map_of_nullable (fun _ => eq_string_of_decodeString) hx
  | multipleOf | maximum | exclusiveMaximum | minimum | exclusiveMinimum =>
    obtain ⟨l, hl, rfl⟩ := map_eq_ok h
    obtain ⟨n, hn, rfl⟩ := map_eq_ok hl
    exact map_of_nullable (fun _ => eq_number_of_decodeNumber) hn

/-- A member that was read counts for its keyword, or is kept among the others. -/
theorem written_readMember {name : String} (hv : IsNormal v)
    (h : readMember u name v (readings v) = .ok u') :
    (∀ k, u'.value? k =
      if name = k.name then normalMember name v (normalParts v) else u.value? k) ∧
    u'.extra = u.extra ++ unknownMembers [(name, v)] := by
  unfold readMember at h
  split at h
  · next k hk =>
    obtain ⟨hothers, hextra⟩ := without_readKeyword h
    have hname : k.name = name := Keyword.name_of_ofName? hk
    refine ⟨fun j => ?_, by simp [unknownMembers, hextra, hk]⟩
    by_cases hj : j = k
    · rw [hj, if_pos hname.symm, normalMember, hk]
      exact value?_readKeyword hv h
    · have hne : name ≠ j.name := fun heq => hj (Keyword.name_inj (hname.trans heq).symm)
      rw [if_neg hne, ← value?_without u' hj, hothers, value?_without u hj]
  · next hname =>
    obtain rfl := Except.ok.inj h
    refine ⟨fun j => ?_, by simp [unknownMembers, hname]⟩
    have hne : name ≠ j.name := by
      rintro rfl
      rw [Keyword.ofName?_name] at hname
      cases hname
    rw [if_neg hne]
    cases j <;> rfl

end Step

/-! ## Whole nodes -/

theorem written_decodeMembers {members : List (String × Json)}
    (hmembers : ∀ m ∈ members, IsNormal m.2) {u s : Schema}
    (h : decodeMembers u members = .ok s) :
    (∀ k, s.value? k = (Members.last? k.name (normalMembers members)).getD (u.value? k)) ∧
    s.extra = u.extra ++ unknownMembers members := by
  induction members generalizing u with
  | nil =>
    obtain rfl := Except.ok.inj h
    exact ⟨fun _ => rfl, (List.append_nil _).symm⟩
  | cons m rest ih =>
    obtain ⟨hm, hrest⟩ := List.forall_mem_cons.1 hmembers
    obtain ⟨u', hread, hdecode⟩ := bind_eq_ok h
    obtain ⟨hvalue, hextra⟩ := written_readMember hm hread
    obtain ⟨ihvalue, ihextra⟩ := ih hrest hdecode
    constructor
    · intro k
      rw [ihvalue, hvalue, normalMembers, Members.last?, Option.getD_or]
      by_cases hname : m.1 = k.name
      · rw [if_pos hname, if_pos hname]
        rfl
      · rw [if_neg hname, if_neg hname]
        rfl
    · rw [ihextra, hextra, List.append_assoc]
      exact congrArg (u.extra ++ ·) (List.filter_append [m] rest).symm

/-- A node is written in its normal form if all values in it are. -/
theorem encode_of_decodeMembers {members : List (String × Json)}
    (hmembers : ∀ m ∈ members, IsNormal m.2) {s : Schema} (h : decodeMembers {} members = .ok s) :
    s.encode = normalNode (.object members) := by
  obtain ⟨hvalue, hextra⟩ := written_decodeMembers hmembers h
  have hempty (k : Keyword) : value? {} k = none := by
    cases k <;> rfl
  have hjoin (o : Option (Option Json)) : o.getD none = o.join := by
    cases o <;> rfl
  rw [encode_eq, normalNode, hextra, inOrder, present, List.filterMap_map]
  simp only [Function.comp_def, hvalue, hempty, hjoin]
  rfl

theorem encodeEach_of_decodeEachNode {vs : List Json} (hvs : ∀ v ∈ vs, IsNormal v)
    {cs : List Schema} (h : decodeEachNode vs = .ok cs) : encodeEach cs = normalEach vs := by
  induction vs generalizing cs with
  | nil =>
    obtain rfl := Except.ok.inj h
    rfl
  | cons v vs ih =>
    obtain ⟨hv, hrest⟩ := List.forall_mem_cons.1 hvs
    obtain ⟨c, hc, htail⟩ := bind_eq_ok h
    obtain ⟨ds, hds, rfl⟩ := map_eq_ok htail
    rw [encodeEach, normalEach, hv.node c hc, ih hrest hds]

theorem encodeMembers_of_decodeNamedNodes {members : List (String × Json)}
    (hmembers : ∀ m ∈ members, IsNormal m.2) {ps : List (String × Schema)}
    (h : decodeNamedNodes members = .ok ps) : encodeMembers ps = normalNamed members := by
  induction members generalizing ps with
  | nil =>
    obtain rfl := Except.ok.inj h
    rfl
  | cons m rest ih =>
    obtain ⟨hm, hrest⟩ := List.forall_mem_cons.1 hmembers
    obtain ⟨c, hc, htail⟩ := bind_eq_ok h
    obtain ⟨qs, hqs, rfl⟩ := map_eq_ok htail
    rw [encodeMembers, normalNamed, hm.node c hc, ih hrest hqs]

/-- Whatever a value is read as is written in normal form. -/
theorem isNormal (v : Json) : IsNormal v := by
  induction v using Json.induction with
  | null | number | string => exact ⟨nofun, nofun, nofun⟩
  | bool b => cases b <;> exact ⟨fun _ hc => Except.ok.inj hc ▸ rfl, nofun, nofun⟩
  | array vs each =>
    exact ⟨nofun, fun _ hcs => encodeEach_of_decodeEachNode each hcs, nofun⟩
  | object members each =>
    exact ⟨fun _ hc => encode_of_decodeMembers each hc, nofun,
      fun _ hps => encodeMembers_of_decodeNamedNodes each hps⟩

end Schema

/-- What a document is read as is written in the normal form of the document. Reading and writing
once more changes nothing. -/
theorem encode_of_decode {v : Json} {s : Schema} (h : Schema.decode v = .ok s) :
    s.encode = v.normalNode ∧
      ∃ t, Schema.decode v.normalNode = .ok t ∧ t.encode = v.normalNode := by
  have hnormal : s.encode = v.normalNode := (Schema.isNormal v).node s h
  have hagain := (Schema.isDocument_of_decode h).decode_encode_eq
  rw [hnormal] at hagain
  exact ⟨hnormal, s, hagain, hnormal⟩

/-- A document with booleans for schemas, values that say nothing, and keywords in disorder. -/
def looseDocument : Json :=
  .object [("title", .string "row"), ("required", .array []), ("not", .bool false),
    ("additionalProperties", .bool false), ("const", .null), ("minLength", .null),
    ("allOf", .array []), ("items", .array [.bool true]),
    ("properties", .object [("b", .object [("readOnly", .bool false)]), ("a", .bool true)]),
    ("type", .string "array")]

/-- The normal form of `looseDocument`. -/
def tidyDocument : Json :=
  .object [("type", .string "array"), ("items", .array [.object []]),
    ("properties", .object [("b", .object []), ("a", .object [])]),
    ("additionalProperties", .bool false), ("not", .object [("not", .object [])]),
    ("const", .null), ("allOf", .array []), ("title", .string "row")]

theorem encode_of_decode_looseDocument :
    ∃ s, Schema.decode looseDocument = .ok s ∧ s.encode = tidyDocument ∧
      ∃ t, Schema.decode tidyDocument = .ok t ∧ t.encode = tidyDocument := by
  have hnormal : looseDocument.normalNode = tidyDocument := rfl
  obtain ⟨s, hs⟩ : ∃ s, Schema.decode looseDocument = .ok s := ⟨_, rfl⟩
  have h := encode_of_decode hs
  rw [hnormal] at h
  exact ⟨s, hs, h⟩

end StrictSchema
