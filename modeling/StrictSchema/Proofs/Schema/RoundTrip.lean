import StrictSchema.Proofs.Schema.Keywords
import StrictSchema.Proofs.Schema.TypeForms

/-!
# Reading back what was written

A node is written keyword by keyword, and each keyword that was written is read back as the field it
came from (`Schema.readKeyword_value`), the types merged. A keyword that was not written has the
field of the empty node (`Schema.only_of_value?_eq_none`). So reading undoes writing, on all nodes
of a document (`Schema.decode_encode`), where no unknown keyword has the name of a known one.
-/

namespace StrictSchema

open Json

/-! ## Single values -/

theorem decodeEach_map {α : Type} {read : Json → Decoded α} {write : α → Json} {xs : List α}
    (h : ∀ x ∈ xs, read (write x) = .ok x) : decodeEach read (xs.map write) = .ok xs := by
  induction xs with
  | nil => rfl
  | cons x xs ih =>
    obtain ⟨first, others⟩ := List.forall_mem_cons.1 h
    rw [List.map_cons, decodeEach, first, ih others]
    rfl

theorem decodeStrings_strings (texts : List String) : decodeStrings (strings texts) = .ok texts :=
  decodeEach_map fun _ _ => rfl

theorem decodeWord_count (n : UInt64) : decodeWord (Schema.count n) = .ok n := by
  have hnonneg : ¬ (n.toNat : Int) < 0 := by omega
  unfold Schema.count Number.ofWord
  simp only [decodeWord, if_neg hnonneg, Int.toNat_natCast, UInt64.ofNat_toNat]

theorem nullable_decodeWord_count (n : UInt64) :
    nullable decodeWord (Schema.count n) = .ok (some n) :=
  congrArg (some <$> ·) (decodeWord_count n)

theorem TypeTags.decode_encode {t : TypeTags} (h : t.isEmpty = false) :
    TypeTags.decode t.encode = .ok t.merged := by
  have hmany (names : List String) :
      TypeTags.decode (strings names) = .ok (.many names) := by
    have hread := decodeStrings_strings names
    unfold strings at hread ⊢
    rw [TypeTags.decode, hread]
    exact nofun
  rcases t with ⟨_ | name, _ | ⟨first, rest⟩⟩
  · cases h
  · exact hmany (first :: rest)
  · rfl
  · simp only [encode, merged, List.contains_iff_mem, hmany]

theorem TypeTags.eq_empty_of_isEmpty {t : TypeTags} (h : t.isEmpty = true) : t = {} := by
  rcases t with ⟨_ | name, _ | ⟨first, rest⟩⟩
  · rfl
  all_goals cases h

namespace Schema

variable {s : Schema} {f : Schema → Schema}

/-! ## Lists and maps of nodes -/

theorem decodeEachNode_encodeEach {cs : List Schema}
    (h : ∀ c ∈ cs, decode c.encode = .ok (f c)) :
    decodeEachNode (encodeEach cs) = .ok (cs.map f) := by
  induction cs with
  | nil => rfl
  | cons c rest ih =>
    obtain ⟨hc, hrest⟩ := List.forall_mem_cons.1 h
    rw [encodeEach, decodeEachNode, hc, ih hrest]
    rfl

theorem decodeNamedNodes_encodeMembers {ps : List (String × Schema)}
    (h : ∀ c ∈ ps.map Prod.snd, decode c.encode = .ok (f c)) :
    decodeNamedNodes (encodeMembers ps) = .ok (ps.map (Prod.map id f)) := by
  induction ps with
  | nil => rfl
  | cons p rest ih =>
    rw [List.map_cons] at h
    obtain ⟨hp, hrest⟩ := List.forall_mem_cons.1 h
    rw [encodeMembers, decodeNamedNodes, hp, ih hrest]
    rfl

theorem encodeEach_eq_map (cs : List Schema) : encodeEach cs = cs.map encode := by
  induction cs with
  | nil => rfl
  | cons c rest ih => rw [encodeEach, ih, List.map_cons]

theorem encodeMembers_eq_map (ps : List (String × Schema)) :
    encodeMembers ps = ps.map (Prod.map id encode) := by
  induction ps with
  | nil => rfl
  | cons p rest ih =>
    rw [encodeMembers, ih, List.map_cons]
    rfl

theorem encode?_eq_none_iff {c : Option Schema} : encode? c = none ↔ c = none := by
  cases c <;> simp [encode?]

theorem encodeEach?_eq_none_iff {cs : Option (List Schema)} :
    encodeEach? cs = none ↔ cs = none := by
  cases cs <;> simp [encodeEach?]

theorem encodeMembers?_eq_none_iff {ps : Option (List (String × Schema))} :
    encodeMembers? ps = none ↔ ps = none := by
  cases ps <;> simp [encodeMembers?]

theorem encodeItems?_eq_none_iff {items : Option (Items Schema)} :
    encodeItems? items = none ↔ items = none := by
  rcases items with _ | c | cs <;> simp [encodeItems?]

theorem encodeAdditionalProperties?_eq_none_iff {a : Option (AdditionalProperties Schema)} :
    encodeAdditionalProperties? a = none ↔ a = none := by
  rcases a with _ | yes | c <;> simp [encodeAdditionalProperties?]

/-! ## Keyword by keyword -/

/-- The node with its types merged and `f` applied to its parts. -/
def readBack (f : Schema → Schema) (s : Schema) : Schema :=
  { s.mapParts f with types := s.types.merged }

/-- What a value is read as under the keywords that hold nodes. -/
def readings (v : Json) : Readings :=
  ⟨fun _ => decode v, fun _ => decodeNodes v, fun _ => decodeNodeMap v⟩

section Nullable

variable {v : Json}

theorem unlessNull_encode? {c : Option Schema} (hc : ∀ x ∈ c.toList, decode x.encode = .ok (f x))
    (h : encode? c = some v) : unlessNull v (readings v).node = .ok (c.map f) := by
  cases c with
  | none => cases h
  | some c =>
    obtain rfl := Option.some.inj h
    have hread := hc c (List.mem_singleton_self c)
    rw [encode_eq] at hread ⊢
    rw [unlessNull, readings, hread]
    · rfl
    · exact nofun

theorem unlessNull_encodeEach? {cs : Option (List Schema)}
    (hcs : ∀ x ∈ cs.getD [], decode x.encode = .ok (f x)) (h : encodeEach? cs = some v) :
    unlessNull v (readings v).nodes = .ok (cs.map (List.map f)) := by
  cases cs with
  | none => cases h
  | some cs =>
    obtain rfl := Option.some.inj h
    exact congrArg (Except.map some) (decodeEachNode_encodeEach hcs)

theorem unlessNull_encodeMembers? {ps : Option (List (String × Schema))}
    (hps : ∀ x ∈ (ps.getD []).map Prod.snd, decode x.encode = .ok (f x))
    (h : encodeMembers? ps = some v) :
    unlessNull v (readings v).nodeMap = .ok (ps.map (List.map (Prod.map id f))) := by
  cases ps with
  | none => cases h
  | some ps =>
    obtain rfl := Option.some.inj h
    exact congrArg (Except.map some) (decodeNamedNodes_encodeMembers hps)

theorem unlessNull_encodeItems? (hitems : ∀ x ∈ s.itemSchemas, decode x.encode = .ok (f x))
    (h : encodeItems? s.items = some v) :
    (unlessNull v fun _ => readItems v (readings v)) = .ok (s.items.map (.map f)) := by
  unfold itemSchemas at hitems
  rcases hs : s.items with _ | c | cs
  · rw [hs] at h
    cases h
  · rw [hs] at h hitems
    obtain rfl := Option.some.inj h
    have hread := hitems c (List.mem_singleton_self c)
    rw [encode_eq] at hread ⊢
    simp [unlessNull, readItems, readings, hread, orNoForm, Except.map, Items.map]
  · rw [hs] at h hitems
    obtain rfl := Option.some.inj h
    have hread := decodeEachNode_encodeEach hitems
    simp [unlessNull, readItems, readings, decodeNodes, hread, orNoForm, Except.map, Items.map]

theorem unlessNull_encodeAdditionalProperties?
    (hadditional : ∀ x ∈ s.additionalSchemas, decode x.encode = .ok (f x))
    (h : encodeAdditionalProperties? s.additionalProperties = some v) :
    (unlessNull v fun _ => readAdditionalProperties v (readings v)) =
      .ok (s.additionalProperties.map (.map f)) := by
  unfold additionalSchemas at hadditional
  rcases hs : s.additionalProperties with _ | yes | c
  · rw [hs] at h
    cases h
  · rw [hs] at h
    obtain rfl := Option.some.inj h
    rfl
  · rw [hs] at h hadditional
    obtain rfl := Option.some.inj h
    have hread := hadditional c (List.mem_singleton_self c)
    rw [encode_eq] at hread ⊢
    simp [unlessNull, readAdditionalProperties, readings, hread, orNoForm, Except.map,
      AdditionalProperties.map]

end Nullable

/-- A value that a node is written with is read back into its field. -/
theorem readKeyword_value (hparts : ∀ c ∈ s.parts, decode c.encode = .ok (f c))
    (ks : Keyword → Bool) {k : Keyword} {v : Json} (h : s.value? k = some v) :
    readKeyword (only ks (s.readBack f)) v (readings v) k =
      .ok (only (addKeyword ks k) (s.readBack f)) := by
  have hparts := eachPart_iff.2 hparts
  cases k with
  | type =>
    obtain ⟨hne, hv⟩ := Option.ite_none_left_eq_some.1 h
    obtain rfl := Option.some.inj hv
    rw [readKeyword, TypeTags.decode_encode (by simpa using hne)]
    simp [only, addKeyword, Except.map, readBack]
  | anyOf =>
    obtain ⟨-, hv⟩ := Option.ite_none_left_eq_some.1 h
    obtain rfl := Option.some.inj hv
    have hread := decodeEachNode_encodeEach hparts.anyOf
    simp [readKeyword, readings, decodeNodes, hread, only, addKeyword, Except.map, readBack,
      mapParts]
  | properties =>
    obtain ⟨-, hv⟩ := Option.ite_none_left_eq_some.1 h
    obtain rfl := Option.some.inj hv
    have hread := decodeNamedNodes_encodeMembers hparts.properties
    simp [readKeyword, readings, decodeNodeMap, hread, only, addKeyword, Except.map, readBack,
      mapParts]
  | required =>
    obtain ⟨-, hv⟩ := Option.ite_none_left_eq_some.1 h
    obtain rfl := Option.some.inj hv
    have hread := decodeStrings_strings s.required
    rw [strings] at hread
    simp [readKeyword, hread, only, addKeyword, Except.map, readBack, mapParts]
  | examples =>
    obtain ⟨-, hv⟩ := Option.ite_none_left_eq_some.1 h
    obtain rfl := Option.some.inj hv
    simp [readKeyword, decodeList, only, addKeyword, Except.map, readBack, mapParts]
  | minLength | maxLength | minItems | maxItems =>
    obtain ⟨n, hn, rfl⟩ := Option.map_eq_some_iff.1 h
    have hread := nullable_decodeWord_count n
    simp [readKeyword, readLimit, hread, only, addKeyword, Except.map, readBack, mapParts, hn]
  | multipleOf | maximum | exclusiveMaximum | minimum | exclusiveMinimum =>
    obtain ⟨n, hn, rfl⟩ := Option.map_eq_some_iff.1 h
    have hread : nullable decodeNumber (.number n) = .ok (some n) := rfl
    simp [readKeyword, readLimit, hread, only, addKeyword, Except.map, readBack, mapParts, hn]
  | pattern | format =>
    obtain ⟨text, htext, rfl⟩ := Option.map_eq_some_iff.1 h
    have hread : nullable decodeString (.string text) = .ok (some text) := rfl
    simp [readKeyword, readLimit, hread, only, addKeyword, Except.map, readBack, mapParts, htext]
  | const =>
    have hconst : s.const = some v := h
    simp [readKeyword, only, addKeyword, readBack, mapParts, hconst]
  | uniqueItems | deprecated | readOnly =>
    obtain ⟨hflag, hv⟩ := Option.ite_none_right_eq_some.1 h
    obtain rfl := Option.some.inj hv
    simp [readKeyword, decodeBool, only, addKeyword, Except.map, readBack, mapParts, hflag]
  | not =>
    have hread := unlessNull_encode? hparts.not h
    simp [readKeyword, hread, only, addKeyword, Except.map, readBack, mapParts]
  | contains =>
    have hread := unlessNull_encode? hparts.contains h
    simp [readKeyword, hread, only, addKeyword, Except.map, readBack, mapParts]
  | additionalItems =>
    have hread := unlessNull_encode? hparts.additionalItems h
    simp [readKeyword, hread, only, addKeyword, Except.map, readBack, mapParts]
  | allOf =>
    have hread := unlessNull_encodeEach? hparts.allOf h
    simp [readKeyword, hread, only, addKeyword, Except.map, readBack, mapParts]
  | oneOf =>
    have hread := unlessNull_encodeEach? hparts.oneOf h
    simp [readKeyword, hread, only, addKeyword, Except.map, readBack, mapParts]
  | prefixItems =>
    have hread := unlessNull_encodeEach? hparts.prefixItems h
    simp [readKeyword, hread, only, addKeyword, Except.map, readBack, mapParts]
  | patternProperties =>
    have hread := unlessNull_encodeMembers? hparts.patternProperties h
    simp [readKeyword, hread, only, addKeyword, Except.map, readBack, mapParts]
  | items =>
    have hread := unlessNull_encodeItems? hparts.items h
    simp [readKeyword, hread, only, addKeyword, Except.map, readBack, mapParts]
  | additionalProperties =>
    have hread := unlessNull_encodeAdditionalProperties? hparts.additionalProperties h
    simp [readKeyword, hread, only, addKeyword, Except.map, readBack, mapParts]

/-- A keyword that is not written has the field of a node without it. -/
theorem only_of_value?_eq_none (ks : Keyword → Bool) {k : Keyword} (h : s.value? k = none) :
    only (addKeyword ks k) (s.readBack f) = only ks (s.readBack f) := by
  cases k with
  | type =>
    have hempty : s.types.isEmpty = true := by simpa [value?, TypeTags.encode?] using h
    have htypes : s.types = {} := TypeTags.eq_empty_of_isEmpty hempty
    simp [only, addKeyword, readBack, mapParts, htypes, TypeTags.merged]
  | anyOf =>
    have hfield : s.anyOf = [] := by simpa [value?, nonemptyList, encodeEach_eq_map] using h
    simp [only, addKeyword, readBack, mapParts, hfield]
  | properties =>
    have hfield : s.properties = [] := by
      simpa [value?, nonemptyMap, encodeMembers_eq_map] using h
    simp [only, addKeyword, readBack, mapParts, hfield]
  | required =>
    have hfield : s.required = [] := by simpa [value?, nonemptyList] using h
    simp [only, addKeyword, readBack, mapParts, hfield]
  | examples =>
    have hfield : s.examples = [] := by simpa [value?, nonemptyList] using h
    simp [only, addKeyword, readBack, mapParts, hfield]
  | uniqueItems | deprecated | readOnly =>
    simp only [value?, flag, ite_eq_right_iff, reduceCtorEq, imp_false, Bool.not_eq_true] at h
    simp [only, addKeyword, readBack, mapParts, h]
  | const =>
    have hfield : s.const = none := h
    simp [only, addKeyword, readBack, mapParts, hfield]
  | items =>
    have hfield := encodeItems?_eq_none_iff.1 h
    simp [only, addKeyword, readBack, mapParts, hfield]
  | not | contains | additionalItems =>
    have hfield := encode?_eq_none_iff.1 h
    simp [only, addKeyword, readBack, mapParts, hfield]
  | additionalProperties =>
    have hfield := encodeAdditionalProperties?_eq_none_iff.1 h
    simp [only, addKeyword, readBack, mapParts, hfield]
  | patternProperties =>
    have hfield := encodeMembers?_eq_none_iff.1 h
    simp [only, addKeyword, readBack, mapParts, hfield]
  | allOf | oneOf | prefixItems =>
    have hfield := encodeEach?_eq_none_iff.1 h
    simp [only, addKeyword, readBack, mapParts, hfield]
  | _ =>
    have hfield := Option.map_eq_none_iff.1 h
    simp [only, addKeyword, readBack, mapParts, hfield]

/-! ## Whole nodes -/

theorem decodeMembers_unknown {extra : List (String × Json)}
    (h : ∀ name ∈ Members.names extra, Keyword.ofName? name = none) (t : Schema) :
    decodeMembers t extra = .ok { t with extra := t.extra ++ extra } := by
  induction extra generalizing t with
  | nil =>
    rw [decodeMembers, List.append_nil]
    cases t
    rfl
  | cons m rest ih =>
    obtain ⟨hname, hrest⟩ := List.forall_mem_cons.1 h
    have hm : readMember t m.1 m.2 (readings m.2) = .ok { t with extra := t.extra ++ [m] } := by
      simp only [readMember, hname]
    calc decodeMembers t (m :: rest)
        = (readMember t m.1 m.2 (readings m.2)).bind (decodeMembers · rest) := rfl
      _ = decodeMembers { t with extra := t.extra ++ [m] } rest := by rw [hm]; rfl
      _ = .ok { t with extra := t.extra ++ m :: rest } := by
        rw [ih hrest, List.append_assoc, List.singleton_append]

/-- Reading the keywords that a node is written with adds each of them, written or not. -/
theorem decodeMembers_present (hparts : ∀ c ∈ s.parts, decode c.encode = .ok (f c))
    (order : List Keyword) (ks : Keyword → Bool) (rest : List (String × Json)) :
    decodeMembers (only ks (s.readBack f)) (present (order.map fun k => (k, s.value? k)) ++ rest) =
      decodeMembers (only (order.foldl addKeyword ks) (s.readBack f)) rest := by
  induction order generalizing ks with
  | nil => rfl
  | cons k order ih =>
    rw [List.foldl_cons, ← ih, List.map_cons]
    -- an unwritten keyword is no member, and adding it changes nothing
    cases hv : s.value? k with
    | none =>
      rw [only_of_value?_eq_none ks hv]
      rfl
    | some v =>
      have hk : readMember (only ks (s.readBack f)) k.name v (readings v) =
          .ok (only (addKeyword ks k) (s.readBack f)) := by
        rw [readMember, Keyword.ofName?_name]
        exact readKeyword_value hparts ks hv
      have hpresent : present ((k, some v) :: order.map fun k => (k, s.value? k)) =
          (k.name, v) :: present (order.map fun k => (k, s.value? k)) := rfl
      rw [hpresent, List.cons_append]
      exact congrArg (Except.bind · fun t => decodeMembers t _) hk

theorem decode_encode_of_parts (hparts : ∀ c ∈ s.parts, decode c.encode = .ok (f c))
    (hextra : ∀ name ∈ Members.names s.extra, Keyword.ofName? name = none) :
    decode s.encode = .ok (s.readBack f) := by
  let order := Keyword.all
  -- the empty node is any node without its keywords
  calc decode s.encode
      = decodeMembers {} (present (order.map fun k => (k, s.value? k)) ++ s.extra) := by
        rw [encode_eq, decode]
    _ = decodeMembers (only (order.foldl addKeyword fun _ => false) (s.readBack f)) s.extra :=
        decodeMembers_present hparts order (fun _ => false) s.extra
    _ = decodeMembers { s.readBack f with extra := [] } s.extra := by rw [only_all]
    _ = .ok (s.readBack f) := decodeMembers_unknown hextra _

/-- A schema is read back with the types of each node in one form, if no node keeps a known keyword
among the others. -/
theorem decode_encode
    (h : ∀ d, s.IsWithin d → ∀ name ∈ Members.names d.extra, Keyword.ofName? name = none) :
    decode s.encode = .ok (s.mapTypes TypeTags.merged) := by
  induction s using partInduction with
  | _ s ih =>
    obtain ⟨hextra, hparts⟩ := forall_isWithin_iff.1 h
    rw [mapTypes_eq]
    exact decode_encode_of_parts (fun c hc => ih c hc (hparts c hc)) hextra

end Schema

end StrictSchema
