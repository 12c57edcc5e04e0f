import StrictSchema.Proofs.Compilation.FixedPoints
import StrictSchema.Proofs.Json.DistinctNames
import StrictSchema.Proofs.Schema.RoundTrip

/-!
# Schemas that are documents

A document gives the types of a node in one form only, and it keeps none of the known keywords among
the others (`Schema.IsPlain`). Schemas read from a document are of this kind throughout
(`Schema.isDocument_of_decode`), since reading a member into a node keeps it so
(`Schema.KeptByReading`), and so are schemas of the strict dialect (`Schema.InDialect.isDocument`).
These are the schemas that are read back exactly as they were written (`decode_encode_schema`).
-/

namespace StrictSchema

open Json

namespace Schema

/-- A node with one form of types and no known keyword among the others. -/
structure IsPlain (s : Schema) : Prop where
  types : ¬ s.types.IsMixed
  extra : ∀ name ∈ Members.names s.extra, Keyword.ofName? name = none

/-- All nodes within a schema are plain. -/
def IsDocument (s : Schema) : Prop := ∀ d, s.IsWithin d → d.IsPlain

theorem isDocument_iff {s : Schema} : s.IsDocument ↔ s.IsPlain ∧ s.EachPart IsDocument :=
  forall_isWithin_iff.trans (and_congr_right fun _ => eachPart_iff.symm)

theorem isDocument_empty : IsDocument {} :=
  isDocument_iff.2 ⟨⟨fun h => h.1 rfl, nofun⟩, eachPart_iff.2 nofun⟩

theorem isDocument_nothing : IsDocument nothing := by
  refine isDocument_iff.2 ⟨⟨fun h => h.1 rfl, nofun⟩, eachPart_iff.2 fun c hc => ?_⟩
  obtain rfl : c = {} := List.mem_singleton.1 hc
  exact isDocument_empty

/-! ## Documents that are read -/

theorem map_eq_ok {α β : Type} {g : α → β} {x : Decoded α} {y : β} (h : x.map g = .ok y) :
    ∃ a, x = .ok a ∧ y = g a := by
  cases x with
  | error e => cases h
  | ok a => exact ⟨a, rfl, (Except.ok.inj h).symm⟩

theorem orNoForm_eq_ok {α : Type} {name : String} {x : Decoded α} {y : α}
    (h : orNoForm name x = .ok y) : x = .ok y := by
  cases x with
  | error e => cases h
  | ok a => exact h

theorem unlessNull_eq_some {α : Type} {v : Json} {read : Unit → Decoded α} {x : α}
    (h : unlessNull v read = .ok (some x)) : read () = .ok x := by
  cases v with
  | null => cases h
  | _ =>
    obtain ⟨a, ha, hx⟩ := map_eq_ok h
    exact Option.some.inj hx ▸ ha

/-- Whatever schemas a value is read as, `P` holds of them. -/
structure Readings.All (P : Schema → Prop) (r : Readings) : Prop where
  node : ∀ c, r.node () = .ok c → P c
  nodes : ∀ cs, r.nodes () = .ok cs → ∀ c ∈ cs, P c
  nodeMap : ∀ ps, r.nodeMap () = .ok ps → ∀ c ∈ ps.map Prod.snd, P c

theorem not_isMixed_of_decode {v : Json} {t : TypeTags} (h : TypeTags.decode v = .ok t) :
    ¬ t.IsMixed := by
  unfold TypeTags.decode at h
  split at h
  · obtain rfl := Except.ok.inj h
    exact fun hmixed => hmixed.2 rfl
  · split at h
    · obtain rfl := Except.ok.inj h
      exact fun hmixed => hmixed.1 rfl
    · cases h

section Read

variable {P : Schema → Prop} {r : Readings} {v : Json}

theorem Readings.All.toList (hr : r.All P) {c : Option Schema} (h : unlessNull v r.node = .ok c) :
    ∀ d ∈ c.toList, P d := by
  cases c with
  | none => exact nofun
  | some c => exact List.forall_mem_singleton.2 (hr.node c (unlessNull_eq_some h))

theorem Readings.All.getD (hr : r.All P) {cs : Option (List Schema)}
    (h : unlessNull v r.nodes = .ok cs) : ∀ d ∈ cs.getD [], P d := by
  cases cs with
  | none => exact nofun
  | some cs => exact hr.nodes cs (unlessNull_eq_some h)

theorem Readings.All.patternSchemas (hr : r.All P) {ps : Option (List (String × Schema))}
    (h : unlessNull v r.nodeMap = .ok ps) : ∀ d ∈ (ps.getD []).map Prod.snd, P d := by
  cases ps with
  | none => exact nofun
  | some ps => exact hr.nodeMap ps (unlessNull_eq_some h)

theorem Readings.All.itemSchemas (hr : r.All P) {items : Option (Items Schema)}
    (h : (unlessNull v fun _ => readItems v r) = .ok items) (u : Schema) :
    ∀ d ∈ { u with items := items }.itemSchemas, P d := by
  cases items with
  | none => exact nofun
  | some i =>
    have hi := orNoForm_eq_ok (unlessNull_eq_some h)
    split at hi
    · obtain ⟨cs, hcs, rfl⟩ := map_eq_ok hi
      exact hr.nodes cs hcs
    · obtain ⟨c, hc, rfl⟩ := map_eq_ok hi
      exact List.forall_mem_singleton.2 (hr.node c hc)

theorem Readings.All.additionalSchemas (hr : r.All P)
    {additionalProperties : Option (AdditionalProperties Schema)}
    (h : (unlessNull v fun _ => readAdditionalProperties v r) = .ok additionalProperties)
    (u : Schema) :
    ∀ d ∈ { u with additionalProperties := additionalProperties }.additionalSchemas, P d := by
  cases additionalProperties with
  | none => exact nofun
  | some a =>
    have ha := orNoForm_eq_ok (unlessNull_eq_some h)
    split at ha
    · obtain rfl := Except.ok.inj ha
      exact nofun
    · obtain ⟨c, hc, rfl⟩ := map_eq_ok ha
      exact List.forall_mem_singleton.2 (hr.node c hc)

end Read

/-! ## Induction on what is read -/

section Induction

variable {P : Schema → Prop}

theorem forall_of_decodeEachNode {vs : List Json} (each : ∀ v ∈ vs, (readings v).All P)
    {cs : List Schema} (h : decodeEachNode vs = .ok cs) : ∀ c ∈ cs, P c := by
  induction vs generalizing cs with
  | nil =>
    obtain rfl := Except.ok.inj h
    exact nofun
  | cons v vs ih =>
    obtain ⟨hv, hvs⟩ := List.forall_mem_cons.1 each
    obtain ⟨c, hc, htail⟩ := bind_eq_ok h
    obtain ⟨ds, hds, rfl⟩ := map_eq_ok htail
    exact List.forall_mem_cons.2 ⟨hv.node c hc, ih hvs hds⟩

theorem forall_of_decodeNamedNodes {members : List (String × Json)}
    (each : ∀ m ∈ members, (readings m.2).All P) {ps : List (String × Schema)}
    (h : decodeNamedNodes members = .ok ps) : ∀ c ∈ ps.map Prod.snd, P c := by
  induction members generalizing ps with
  | nil =>
    obtain rfl := Except.ok.inj h
    exact nofun
  | cons m rest ih =>
    obtain ⟨hm, hrest⟩ := List.forall_mem_cons.1 each
    obtain ⟨c, hc, htail⟩ := bind_eq_ok h
    obtain ⟨qs, hqs, rfl⟩ := map_eq_ok htail
    exact List.forall_mem_cons.2 ⟨hm.node c hc, ih hrest hqs⟩

/-- Reading keeps `P`: the schemas without keywords have it, and a node has it after each member
that is read into it. Of the values something may be known that their parts inherit. -/
structure KeptByReading (V : Json → Prop) (P : Schema → Prop) : Prop where
  elements : ∀ {vs}, V (.array vs) → ∀ v ∈ vs, V v
  values : ∀ {members}, V (.object members) → ∀ m ∈ members, V m.2
  empty : P {}
  nothing : P nothing
  step : ∀ {u u' : Schema} {name : String} {v : Json}, V v → P u → (readings v).All P →
    readMember u name v (readings v) = .ok u' → P u'

variable {V : Json → Prop}

theorem KeptByReading.of_decodeMembers (kept : KeptByReading V P) {members : List (String × Json)}
    (each : ∀ m ∈ members, V m.2 ∧ (readings m.2).All P) {u s : Schema} (hu : P u)
    (h : decodeMembers u members = .ok s) : P s := by
  induction members generalizing u with
  | nil => exact Except.ok.inj h ▸ hu
  | cons m rest ih =>
    obtain ⟨⟨hm, hread⟩, hrest⟩ := List.forall_mem_cons.1 each
    obtain ⟨u', hmember, htail⟩ := bind_eq_ok h
    exact ih hrest (kept.step hm hu hread hmember) htail

/-- What reading keeps holds of whatever a value is read as. -/
theorem KeptByReading.all (kept : KeptByReading V P) (v : Json) (hv : V v) :
    (readings v).All P := by
  induction v using Json.induction with
  | null | number | string => exact ⟨nofun, nofun, nofun⟩
  | bool b =>
    cases b with
    | true => exact ⟨fun _ hc => Except.ok.inj hc ▸ kept.empty, nofun, nofun⟩
    | false => exact ⟨fun _ hc => Except.ok.inj hc ▸ kept.nothing, nofun, nofun⟩
  | array vs ih =>
    have each : ∀ w ∈ vs, (readings w).All P := fun w hw => ih w hw (kept.elements hv w hw)
    exact ⟨nofun, fun _ hcs => forall_of_decodeEachNode each hcs, nofun⟩
  | object members ih =>
    have each : ∀ m ∈ members, V m.2 ∧ (readings m.2).All P := fun m hm =>
      ⟨kept.values hv m hm, ih m hm (kept.values hv m hm)⟩
    exact ⟨fun _ hc => kept.of_decodeMembers each kept.empty hc, nofun,
      fun _ hps => forall_of_decodeNamedNodes (fun m hm => (each m hm).2) hps⟩

end Induction

/-! ## Reading a member -/

section Step

variable {u u' : Schema} {r : Readings} {v : Json} (hu : u.IsDocument) (hr : r.All IsDocument)
include hu hr

theorem isDocument_readKeyword {k : Keyword} (h : readKeyword u v r k = .ok u') :
    u'.IsDocument := by
  obtain ⟨hplain, hparts⟩ := isDocument_iff.1 hu
  refine isDocument_iff.2 ?_
  cases k with
  | type =>
    obtain ⟨types, htypes, rfl⟩ := map_eq_ok h
    exact ⟨{ hplain with types := not_isMixed_of_decode htypes }, { hparts with }⟩
  | anyOf =>
    obtain ⟨cs, hcs, rfl⟩ := map_eq_ok h
    exact ⟨{ hplain with }, { hparts with anyOf := hr.nodes cs hcs }⟩
  | items =>
    obtain ⟨items, hitems, rfl⟩ := map_eq_ok h
    exact ⟨{ hplain with }, { hparts with items := hr.itemSchemas hitems u }⟩
  | properties =>
    obtain ⟨ps, hps, rfl⟩ := map_eq_ok h
    exact ⟨{ hplain with }, { hparts with properties := hr.nodeMap ps hps }⟩
  | additionalProperties =>
    obtain ⟨a, ha, rfl⟩ := map_eq_ok h
    exact ⟨{ hplain with }, { hparts with additionalProperties := hr.additionalSchemas ha u }⟩
  | not =>
    obtain ⟨c, hc, rfl⟩ := map_eq_ok h
    exact ⟨{ hplain with }, { hparts with not := hr.toList hc }⟩
  | contains =>
    obtain ⟨c, hc, rfl⟩ := map_eq_ok h
    exact ⟨{ hplain with }, { hparts with contains := hr.toList hc }⟩
  | patternProperties =>
    obtain ⟨ps, hps, rfl⟩ := map_eq_ok h
    exact ⟨{ hplain with }, { hparts with patternProperties := hr.patternSchemas hps }⟩
  | additionalItems =>
    obtain ⟨c, hc, rfl⟩ := map_eq_ok h
    exact ⟨{ hplain with }, { hparts with additionalItems := hr.toList hc }⟩
  | allOf =>
    obtain ⟨cs, hcs, rfl⟩ := map_eq_ok h
    exact ⟨{ hplain with }, { hparts with allOf := hr.getD hcs }⟩
  | oneOf =>
    obtain ⟨cs, hcs, rfl⟩ := map_eq_ok h
    exact ⟨{ hplain with }, { hparts with oneOf := hr.getD hcs }⟩
  | prefixItems =>
    obtain ⟨cs, hcs, rfl⟩ := map_eq_ok h
    exact ⟨{ hplain with }, { hparts with prefixItems := hr.getD hcs }⟩
  | const =>
    obtain rfl := Except.ok.inj h
    exact ⟨{ hplain with }, { hparts with }⟩
  | _ =>
    obtain ⟨x, -, rfl⟩ := map_eq_ok h
    exact ⟨{ hplain with }, { hparts with }⟩

theorem isDocument_readMember {name : String} (h : readMember u name v r = .ok u') :
    u'.IsDocument := by
  unfold readMember at h
  split at h
  · exact isDocument_readKeyword hu hr h
  · next hname =>
    obtain rfl := Except.ok.inj h
    obtain ⟨hplain, hparts⟩ := isDocument_iff.1 hu
    refine isDocument_iff.2 ⟨⟨hplain.types, fun other hother => ?_⟩, { hparts with }⟩
    rw [Members.names, List.map_append, List.mem_append] at hother
    rcases hother with hother | hother
    · exact hplain.extra other hother
    · exact List.mem_singleton.1 hother ▸ hname

end Step

theorem keptByReading_isDocument : KeptByReading (fun _ => True) IsDocument where
  elements _ _ _ := trivial
  values _ _ _ := trivial
  empty := isDocument_empty
  nothing := isDocument_nothing
  step _ hu hr := isDocument_readMember hu hr

/-- Whatever a value is read as is a document. -/
theorem isDocument_of_decode {v : Json} {s : Schema} (h : decode v = .ok s) : s.IsDocument :=
  (keptByReading_isDocument.all v trivial).node s h

/-! ## Schemas of the dialect -/

theorem not_isMixed_of_isStrict {t : TypeTags} (h : t.IsStrict) : ¬ t.IsMixed := by
  cases h with
  | single _ => exact fun h => h.2 rfl
  | many _ _ => exact fun h => h.1 rfl

theorem IsStrictNode.isPlain {s : Schema} (h : s.IsStrictNode) : s.IsPlain where
  types := not_isMixed_of_isStrict h.types
  extra := by
    rw [h.extra]
    exact nofun

/-- The parts of a strict node are its children and the schema of no value. -/
theorem IsStrictNode.eachPart {P : Schema → Prop} {s : Schema} (h : s.IsStrictNode)
    (hchildren : ∀ c, IsChild s c → P c) (hnothing : P nothing) : s.EachPart P where
  anyOf := by
    rw [h.anyOf]
    exact nofun
  items c hc := hchildren c (.of_mem_itemSchemas hc)
  properties c hc := hchildren c (.of_mem_propertySchemas hc)
  additionalProperties := by
    unfold additionalSchemas
    by_cases hobject : s.types.contains "object" = true
    · rw [(h.isClosedObject hobject).additionalProperties]
      exact List.forall_mem_singleton.2 hnothing
    · rw [(h.isNoObject hobject).additionalProperties]
      exact nofun
  not := by
    rw [h.not]
    exact nofun
  contains := by
    rw [h.noForbidden.contains]
    exact nofun
  patternProperties := by
    rw [patternSchemas, h.noForbidden.patternProperties]
    exact nofun
  additionalItems := by
    rw [h.noForbidden.additionalItems]
    exact nofun
  allOf := by
    rw [h.noForbidden.allOf]
    exact nofun
  oneOf := by
    rw [h.noForbidden.oneOf]
    exact nofun
  prefixItems := by
    rw [h.noForbidden.prefixItems]
    exact nofun

theorem isDocument_ofAlternatives {cs : List Schema} (h : ∀ c ∈ cs, c.IsDocument) :
    (ofAlternatives cs).IsDocument := by
  have hempty := isDocument_iff.1 isDocument_empty
  exact isDocument_iff.2 ⟨{ hempty.1 with }, { hempty.2 with anyOf := h }⟩

theorem InDialect.isDocument {s : Schema} (h : InDialect s) : s.IsDocument := by
  induction h with
  | @intro s hs _ ih =>
    cases hs with
    | choice _ honly =>
      rw [honly]
      exact isDocument_ofAlternatives fun c hc => ih c (.alternative hc)
    | node hs => exact isDocument_iff.2 ⟨hs.isPlain, hs.eachPart ih isDocument_nothing⟩

/-! ## Reading back -/

theorem IsDocument.decode_encode_eq {s : Schema} (h : s.IsDocument) :
    decode s.encode = .ok s := by
  have htypes : s.mapTypes TypeTags.merged = s :=
    mapTypes_eq_self_iff.2 fun d hd => TypeTags.merged_eq_self_iff.2 (h d hd).types
  rw [decode_encode fun d hd => (h d hd).extra, htypes]

end Schema

/-- A schema that keeps no known keyword among the others is read back with the types of each node
in one form, and as it was exactly if they were. So are schemas that were read before, and the forms
of schemas. -/
theorem decode_encode_schema (s : Schema) :
    ((∀ d, s.IsWithin d → ∀ name ∈ Members.names d.extra, Keyword.ofName? name = none) →
      Schema.decode s.encode = .ok (s.mapTypes TypeTags.merged) ∧
      (Schema.decode s.encode = .ok s ↔ ∀ d, s.IsWithin d → ¬ d.types.IsMixed)) ∧
    (∀ v, Schema.decode v = .ok s → Schema.decode s.encode = .ok s) ∧
    ∀ r, compile r = some s → Schema.decode s.encode = .ok s := by
  refine ⟨fun hextra => ?_, fun v hv => ?_, fun r hr => ?_⟩
  · have hread := Schema.decode_encode hextra
    refine ⟨hread, ?_⟩
    rw [hread, Except.ok.injEq, Schema.mapTypes_eq_self_iff]
    exact forall₂_congr fun d _ => TypeTags.merged_eq_self_iff
  · exact (Schema.isDocument_of_decode hv).decode_encode_eq
  · exact (inDialect_of_compile hr).isDocument.decode_encode_eq

/-- A node without values, with mixed types under a keyword that the dialect does not have. -/
def mixedNegation : Schema where
  not := some { types := { scalar := some "null", list := ["string"] }, const := some .null }
  allOf := some []
  extra := [("title", .string "none")]

/-- What `mixedNegation` is read back as. -/
def mergedNegation : Schema where
  not := some { types := .many ["string", "null"], const := some .null }
  allOf := some []
  extra := [("title", .string "none")]

theorem decode_encode_mixedNegation :
    Schema.decode mixedNegation.encode = .ok mergedNegation ∧
      Schema.decode mixedNegation.encode ≠ .ok mixedNegation ∧
      Schema.decode mergedNegation.encode = .ok mergedNegation ∧
      Schema.decode optionalChoiceForm.encode = .ok optionalChoiceForm := by
  have hextra : ∀ d, mixedNegation.IsWithin d →
      ∀ name ∈ Members.names d.extra, Keyword.ofName? name = none := by
    refine Schema.forall_isWithin_iff.2 ⟨by decide, List.forall_mem_singleton.2 ?_⟩
    exact Schema.forall_isWithin_iff.2 ⟨nofun, nofun⟩
  obtain ⟨hread, hiff⟩ := (decode_encode_schema mixedNegation).1 hextra
  have hmerged : Schema.decode mixedNegation.encode = .ok mergedNegation := hread
  refine ⟨hmerged, fun hsame => ?_, (decode_encode_schema mergedNegation).2.1 _ hmerged,
    (decode_encode_schema optionalChoiceForm).2.2 optionalChoice rfl⟩
  have hnot : mixedNegation.IsWithin
      { types := { scalar := some "null", list := ["string"] }, const := some .null } :=
    .single (List.mem_singleton_self _)
  exact hiff.1 hsame _ hnot ⟨nofun, nofun⟩

end StrictSchema
