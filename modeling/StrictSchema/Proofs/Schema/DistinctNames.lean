import StrictSchema.Proofs.Json.DistinctNames
import StrictSchema.Proofs.Schema.Rewriting

/-!
# Schemas that name each property once

A document whose objects repeat no name is read as a schema in which no node has two properties of
one name and no example repeats one (`Schema.namesOnce_of_decode`), and a schema of the dialect of
this kind is written as a document whose objects repeat none (`Schema.InDialect.distinctNames`).
-/

namespace StrictSchema

open Json

namespace Schema

/-- The node and all nodes below it name each property once, and so do the objects among their
examples. -/
inductive NamesOnce : Schema → Prop where
  | intro {s : Schema} (names : (Members.names s.properties).Nodup)
      (examples : ∀ e ∈ s.examples, e.DistinctNames) (anyOf : ∀ c ∈ s.anyOf, NamesOnce c)
      (properties : ∀ c ∈ s.propertySchemas, NamesOnce c)
      (items : ∀ c ∈ s.itemSchemas, NamesOnce c) : NamesOnce s

section NamesOnce

variable {s : Schema} (h : s.NamesOnce)
include h

theorem NamesOnce.names : (Members.names s.properties).Nodup := by
  cases h with
  | intro names _ _ _ _ => exact names

theorem NamesOnce.examples : ∀ e ∈ s.examples, e.DistinctNames := by
  cases h with
  | intro _ examples _ _ _ => exact examples

theorem NamesOnce.child {c : Schema} (hc : IsChild s c) : c.NamesOnce := by
  cases h with
  | intro _ _ anyOf properties items =>
    cases hc with
    | alternative hc => exact anyOf c hc
    | property hc => exact properties c (List.mem_map_of_mem hc)
    | item hc =>
      rw [itemSchemas, hc] at items
      exact items c List.mem_cons_self
    | element hcs hc =>
      rw [itemSchemas, hcs] at items
      exact items c hc

end NamesOnce

theorem namesOnce_of_bare {s : Schema} (properties : s.properties = []) (examples : s.examples = [])
    (anyOf : s.anyOf = []) (items : s.items = none) : s.NamesOnce := by
  refine .intro ?_ ?_ ?_ ?_ ?_
  · rw [properties]
    exact List.nodup_nil
  · rw [examples]
    exact List.forall_mem_nil _
  · rw [anyOf]
    exact List.forall_mem_nil _
  · rw [propertySchemas, properties]
    exact List.forall_mem_nil _
  · rw [itemSchemas, items]
    exact List.forall_mem_nil _

/-! ## Reading -/

theorem names_of_decodeNamedNodes {members : List (String × Json)} {ps : List (String × Schema)}
    (h : decodeNamedNodes members = .ok ps) : Members.names ps = Members.names members := by
  induction members generalizing ps with
  | nil =>
    obtain rfl := Except.ok.inj h
    rfl
  | cons m rest ih =>
    obtain ⟨c, -, htail⟩ := bind_eq_ok h
    obtain ⟨qs, hqs, rfl⟩ := map_eq_ok htail
    exact congrArg (m.1 :: ·) (ih hqs)

theorem nodup_of_decodeNodeMap {v : Json} (hv : v.DistinctNames) {ps : List (String × Schema)}
    (h : decodeNodeMap v = .ok ps) : (Members.names ps).Nodup := by
  cases v with
  | object members =>
    rw [names_of_decodeNamedNodes h]
    exact hv.1
  | _ => cases h

section Step

variable {u u' : Schema} {v : Json} (hu : u.NamesOnce) (hv : v.DistinctNames)
  (hr : (readings v).All NamesOnce)
include hu hv hr

theorem namesOnce_readKeyword {k : Keyword} (h : readKeyword u v (readings v) k = .ok u') :
    u'.NamesOnce := by
  obtain ⟨names, examples, anyOf, properties, items⟩ := hu
  cases k with
  | anyOf =>
    obtain ⟨cs, hcs, rfl⟩ := map_eq_ok h
    exact .intro names examples (hr.nodes cs hcs) properties items
  | items =>
    obtain ⟨is, his, rfl⟩ := map_eq_ok h
    exact .intro names examples anyOf properties (hr.itemSchemas his u)
  | properties =>
    obtain ⟨ps, hps, rfl⟩ := map_eq_ok h
    exact .intro (nodup_of_decodeNodeMap hv hps) examples anyOf (hr.nodeMap ps hps) items
  | examples =>
    obtain ⟨es, hes, rfl⟩ := map_eq_ok h
    obtain rfl := eq_array_of_decodeList hes
    exact .intro names (eachDistinct_iff.1 hv) anyOf properties items
  | const =>
    obtain rfl := Except.ok.inj h
    exact .intro names examples anyOf properties items
  | _ =>
    obtain ⟨x, -, rfl⟩ := map_eq_ok h
    exact .intro names examples anyOf properties items

theorem namesOnce_readMember {name : String} (h : readMember u name v (readings v) = .ok u') :
    u'.NamesOnce := by
  unfold readMember at h
  split at h
  · exact namesOnce_readKeyword hu hv hr h
  · obtain rfl := Except.ok.inj h
    obtain ⟨names, examples, anyOf, properties, items⟩ := hu
    exact .intro names examples anyOf properties items

end Step

theorem keptByReading_namesOnce : KeptByReading DistinctNames NamesOnce where
  elements h := eachDistinct_iff.1 h
  values h := membersDistinct_iff.1 h.2
  empty := namesOnce_of_bare rfl rfl rfl rfl
  nothing := namesOnce_of_bare rfl rfl rfl rfl
  step hv hu hr := namesOnce_readMember hu hv hr

/-- What a value without repeated names is read as names each property once. -/
theorem namesOnce_of_decode {v : Json} {s : Schema} (hv : v.DistinctNames)
    (h : decode v = .ok s) : s.NamesOnce :=
  (keptByReading_namesOnce.all v hv).node s h

/-! ## Writing -/

section Write

variable {s : Schema}

theorem distinctNames_strings (texts : List String) : (Json.strings texts).DistinctNames := by
  refine eachDistinct_iff.2 fun v hv => ?_
  obtain ⟨text, -, rfl⟩ := List.mem_map.1 hv
  trivial

theorem distinctNames_encode_types (t : TypeTags) : t.encode.DistinctNames := by
  unfold TypeTags.encode
  split
  · trivial
  · trivial
  · exact distinctNames_strings _
  · exact distinctNames_strings _

theorem eachDistinct_encodeEach {cs : List Schema} (h : ∀ c ∈ cs, c.encode.DistinctNames) :
    EachDistinct (encodeEach cs) := by
  rw [encodeEach_eq_map, eachDistinct_iff]
  exact List.forall_mem_map.2 h

theorem distinctNames_encodeMembers {ps : List (String × Schema)} (names : (Members.names ps).Nodup)
    (h : ∀ c ∈ ps.map Prod.snd, c.encode.DistinctNames) :
    (Json.object (encodeMembers ps)).DistinctNames := by
  rw [encodeMembers_eq_map]
  constructor
  · rw [Members.names, List.map_map]
    exact names
  · rw [membersDistinct_iff]
    exact List.forall_mem_map.2 fun p hp => h p.2 (List.mem_map_of_mem hp)

theorem names_present_sublist (keywords : List (Keyword × Option Json)) :
    (Members.names (present keywords)).Sublist (keywords.map fun (k, _) => k.name) := by
  induction keywords with
  | nil => exact List.Sublist.refl _
  | cons p rest ih =>
    obtain ⟨k, value⟩ := p
    cases value with
    | none => exact ih.cons _
    | some v => exact ih.cons_cons _

/-- A keyword is written once at most. -/
theorem nodup_present (s : Schema) :
    (Members.names (present (Keyword.all.map fun k => (k, s.value? k)))).Nodup := by
  have sub := names_present_sublist (Keyword.all.map fun k => (k, s.value? k))
  rw [List.map_map] at sub
  have once : Keyword.all.Nodup := by decide
  exact sub.nodup (once.map fun _ _ => Keyword.name_inj)

theorem mem_present {keywords : List (Keyword × Option Json)} {m : String × Json}
    (h : m ∈ present keywords) : ∃ k, (k, some m.2) ∈ keywords := by
  obtain ⟨⟨k, value⟩, mem, written⟩ := List.mem_filterMap.1 h
  obtain ⟨v, rfl, rfl⟩ := Option.map_eq_some_iff.1 written
  exact ⟨k, mem⟩

theorem distinctNames_encodeItems? {v : Json} (each : ∀ c ∈ s.itemSchemas, c.encode.DistinctNames)
    (h : encodeItems? s.items = some v) : v.DistinctNames := by
  unfold itemSchemas at each
  split at each
  · next hs =>
    rw [hs] at h
    cases h
  · next c hs =>
    rw [hs] at h
    cases h
    exact each c List.mem_cons_self
  · next cs hs =>
    rw [hs] at h
    cases h
    exact eachDistinct_encodeEach each

theorem distinctNames_encodeAdditionalProperties? {v : Json}
    (each : ∀ c ∈ s.additionalSchemas, c.encode.DistinctNames)
    (h : encodeAdditionalProperties? s.additionalProperties = some v) : v.DistinctNames := by
  unfold additionalSchemas at each
  cases hs : s.additionalProperties with
  | none =>
    rw [hs] at h
    cases h
  | some a =>
    rw [hs] at h each
    cases a with
    | allowed yes =>
      cases h
      trivial
    | schema c =>
      cases h
      exact each c List.mem_cons_self

/-- What is written under a keyword of a strict node repeats no name if its parts do not. -/
theorem IsStrictNode.distinctNames_value? (hs : s.IsStrictNode)
    (names : (Members.names s.properties).Nodup) (examples : ∀ e ∈ s.examples, e.DistinctNames)
    (parts : s.EachPart fun c => c.encode.DistinctNames) {k : Keyword} {v : Json}
    (h : s.value? k = some v) : v.DistinctNames := by
  cases k with
  | type =>
    obtain ⟨-, h⟩ := Option.ite_none_left_eq_some.1 h
    cases h
    exact distinctNames_encode_types s.types
  | anyOf =>
    obtain ⟨-, h⟩ := Option.ite_none_left_eq_some.1 h
    cases h
    exact eachDistinct_encodeEach parts.anyOf
  | items => exact distinctNames_encodeItems? parts.items h
  | properties =>
    obtain ⟨-, h⟩ := Option.ite_none_left_eq_some.1 h
    cases h
    exact distinctNames_encodeMembers names parts.properties
  | required =>
    obtain ⟨-, h⟩ := Option.ite_none_left_eq_some.1 h
    cases h
    exact distinctNames_strings s.required
  | additionalProperties =>
    exact distinctNames_encodeAdditionalProperties? parts.additionalProperties h
  | examples =>
    obtain ⟨-, h⟩ := Option.ite_none_left_eq_some.1 h
    cases h
    exact eachDistinct_iff.2 examples
  | not =>
    rw [value?, hs.not] at h
    cases h
  | const =>
    rw [value?, hs.noForbidden.const] at h
    cases h
  | contains =>
    rw [value?, hs.noForbidden.contains] at h
    cases h
  | patternProperties =>
    rw [value?, hs.noForbidden.patternProperties] at h
    cases h
  | additionalItems =>
    rw [value?, hs.noForbidden.additionalItems] at h
    cases h
  | allOf =>
    rw [value?, hs.noForbidden.allOf] at h
    cases h
  | oneOf =>
    rw [value?, hs.noForbidden.oneOf] at h
    cases h
  | prefixItems =>
    rw [value?, hs.noForbidden.prefixItems] at h
    cases h
  | uniqueItems | deprecated | readOnly =>
    obtain ⟨-, h⟩ := Option.ite_none_right_eq_some.1 h
    cases h
    trivial
  | _ =>
    obtain ⟨x, -, rfl⟩ := Option.map_eq_some_iff.1 h
    trivial

/-- A node without unknown keywords repeats no name if nothing that it writes does. -/
theorem distinctNames_of_value? (extra : s.extra = [])
    (h : ∀ k v, s.value? k = some v → v.DistinctNames) : s.encode.DistinctNames := by
  rw [encode_eq, extra, List.append_nil]
  refine ⟨nodup_present s, membersDistinct_iff.2 fun m hm => ?_⟩
  obtain ⟨k, mem⟩ := mem_present hm
  obtain ⟨j, -, eq⟩ := List.mem_map.1 mem
  exact h j m.2 (congrArg Prod.snd eq)

theorem distinctNames_ofAlternatives {cs : List Schema} (h : ∀ c ∈ cs, c.encode.DistinctNames) :
    (ofAlternatives cs).encode.DistinctNames := by
  refine distinctNames_of_value? rfl fun k v hv => ?_
  cases k with
  | anyOf =>
    obtain ⟨-, hv⟩ := Option.ite_none_left_eq_some.1 hv
    cases hv
    exact eachDistinct_encodeEach h
  | _ => cases hv

theorem distinctNames_nothing : nothing.encode.DistinctNames :=
  ⟨List.nodup_singleton _, ⟨List.nodup_nil, trivial⟩, trivial⟩

/-- A schema of the dialect that names each property once is written without a repeated name. -/
theorem InDialect.distinctNames (h : InDialect s) (once : s.NamesOnce) :
    s.encode.DistinctNames := by
  induction h with
  | @intro s hs _ ih =>
    have children : ∀ c, IsChild s c → c.encode.DistinctNames :=
      fun c hc => ih c hc (once.child hc)
    cases hs with
    | choice _ honly =>
      rw [honly]
      exact distinctNames_ofAlternatives fun c hc => children c (.alternative hc)
    | node hs =>
      have parts := hs.eachPart children distinctNames_nothing
      exact distinctNames_of_value? hs.extra fun k v hv =>
        hs.distinctNames_value? once.names once.examples parts hv

end Write

end Schema

end StrictSchema
