import StrictSchema.Proofs.Compilation.Artefact
import StrictSchema.Proofs.Compilation.Sources
import StrictSchema.Proofs.Json.Depth
import StrictSchema.Proofs.Schema.Fields

/-!
# The depth of a form

Compilation adds arrays and objects at every node: a second type makes a list of types, null is a
further alternative, and an object is closed by the schema that nothing satisfies. Nevertheless
the form of a document is at most one level deeper than the document (`depth_encode_le`), since
what is added to a node lies no deeper than the children of the node, or than one level below the
node if it has none. So the form of any document that is less deep than the reader's limit can be
read again, while a document of the greatest depth may have a form that cannot (`form_depth`).
-/

namespace StrictSchema

open Json

namespace Schema

/-! ## The depth of what is read -/

section Lists

variable {v : Json}

theorem exists_of_mem_decodeNodes {cs : List Schema} (h : decodeNodes v = .ok cs) {c : Schema}
    (hc : c ∈ cs) : ∃ w, decode w = .ok c ∧ w.depth < v.depth := by
  obtain ⟨vs, rfl, aligned⟩ := decodeNodes_eq_ok_iff.1 h
  obtain ⟨w, mem, read⟩ := exists_of_mem_right aligned hc
  exact ⟨w, read, depth_lt_of_mem_array mem⟩

theorem exists_of_mem_decodeNodeMap {ps : List (String × Schema)} (h : decodeNodeMap v = .ok ps)
    {p : String × Schema} (hp : p ∈ ps) : ∃ w, decode w = .ok p.2 ∧ w.depth < v.depth := by
  obtain ⟨members, rfl, aligned⟩ := decodeNodeMap_eq_ok_iff.1 h
  obtain ⟨m, mem, -, read⟩ := exists_of_mem_right aligned hp
  exact ⟨m.2, read, depth_lt_of_mem_object mem⟩

end Lists

section Children

variable {members : List (String × Json)} {d : Schema} (h : decode (.object members) = .ok d)
include h

theorem depth_of_mem_anyOf {c : Schema} (hc : c ∈ d.anyOf) :
    ∃ w, decode w = .ok c ∧ w.depth + 2 ≤ (Json.object members).depth := by
  rcases anyOf_of_decode h with none | ⟨v, mem, read⟩
  · rw [none] at hc
    cases hc
  · obtain ⟨w, hw, inner⟩ := exists_of_mem_decodeNodes read hc
    have outer : v.depth < _ := depth_lt_of_mem_object mem
    exact ⟨w, hw, by omega⟩

theorem depth_of_mem_properties {p : String × Schema} (hp : p ∈ d.properties) :
    ∃ w, decode w = .ok p.2 ∧ w.depth + 2 ≤ (Json.object members).depth := by
  rcases properties_of_decode h with none | ⟨v, mem, read⟩
  · rw [none] at hp
    cases hp
  · obtain ⟨w, hw, inner⟩ := exists_of_mem_decodeNodeMap read hp
    have outer : v.depth < _ := depth_lt_of_mem_object mem
    exact ⟨w, hw, by omega⟩

theorem depth_of_item {c : Schema} (hc : d.items = some (.single c)) :
    ∃ w, decode w = .ok c ∧ w.depth + 1 ≤ (Json.object members).depth := by
  obtain ⟨v, mem, read⟩ := items_of_decode h hc
  obtain ⟨w, hw, eq⟩ : ∃ w, decode w = .ok c ∧ w = v := by
    have form := orNoForm_eq_ok read
    split at form
    · obtain ⟨cs, -, eq⟩ := map_eq_ok form
      cases eq
    · obtain ⟨c', hc', eq⟩ := map_eq_ok form
      cases eq
      exact ⟨_, hc', rfl⟩
  exact ⟨w, hw, eq ▸ depth_lt_of_mem_object mem⟩

theorem depth_of_mem_tuple {cs : List Schema} (hcs : d.items = some (.tuple cs)) {c : Schema}
    (hc : c ∈ cs) : ∃ w, decode w = .ok c ∧ w.depth + 2 ≤ (Json.object members).depth := by
  obtain ⟨v, mem, read⟩ := items_of_decode h hcs
  have nodes : decodeNodes v = .ok cs := by
    have form := orNoForm_eq_ok read
    split at form
    · obtain ⟨cs', hcs', eq⟩ := map_eq_ok form
      cases eq
      exact hcs'
    · obtain ⟨c', -, eq⟩ := map_eq_ok form
      cases eq
  obtain ⟨w, hw, inner⟩ := exists_of_mem_decodeNodes nodes hc
  have outer : v.depth < _ := depth_lt_of_mem_object mem
  exact ⟨w, hw, by omega⟩

theorem depth_of_mem_examples {e : Json} (he : e ∈ d.examples) :
    e.depth + 2 ≤ (Json.object members).depth := by
  rcases examples_of_decode h with none | mem
  · rw [none] at he
    cases he
  · have inner := depth_lt_of_mem_array he
    have outer : (Json.array d.examples).depth < _ := depth_lt_of_mem_object mem
    omega

end Children

/-! ## The depth of what is written -/

/-- A node is one level deeper than the values of its keywords. -/
theorem depth_encode_le_of_values {s : Schema} {n : Nat} (extra : s.extra = [])
    (values : ∀ k v, s.value? k = some v → v.depth ≤ n) : s.encode.depth ≤ n + 1 := by
  rw [encode_eq, extra, List.append_nil, depth_object]
  refine Nat.succ_le_succ (membersDepth_le_iff.2 fun m hm => ?_)
  obtain ⟨k, mem⟩ := mem_present hm
  obtain ⟨j, -, eq⟩ := List.mem_map.1 mem
  exact values k m.2 ((Prod.mk.inj eq).1 ▸ (Prod.mk.inj eq).2)

section Values

variable {n : Nat}

theorem depth_nonemptyList_le {vs : List Json} (each : ∀ v ∈ vs, v.depth + 1 ≤ n) {v : Json}
    (h : nonemptyList vs = some v) : v.depth ≤ n := by
  cases vs with
  | nil => cases h
  | cons w ws =>
    obtain rfl := Option.some.inj h
    have positive : 1 ≤ n := Nat.le_of_add_left_le (each w List.mem_cons_self)
    have deepest : elementsDepth (w :: ws) ≤ n - 1 :=
      elementsDepth_le_iff.2 fun x hx => Nat.le_sub_of_add_le (each x hx)
    rw [depth_array]
    omega

theorem depth_nonemptyMap_le {ms : List (String × Json)} (each : ∀ m ∈ ms, m.2.depth + 1 ≤ n)
    {v : Json} (h : nonemptyMap ms = some v) : v.depth ≤ n := by
  cases ms with
  | nil => cases h
  | cons m rest =>
    obtain rfl := Option.some.inj h
    have positive : 1 ≤ n := Nat.le_of_add_left_le (each m List.mem_cons_self)
    have deepest : membersDepth (m :: rest) ≤ n - 1 :=
      membersDepth_le_iff.2 fun x hx => Nat.le_sub_of_add_le (each x hx)
    rw [depth_object]
    omega

end Values

/-- The depth of a choice whose alternatives lie two levels below `n + 1`. -/
theorem depth_ofAlternatives_le {n : Nat} {cs : List Schema}
    (each : ∀ c ∈ cs, c.encode.depth + 1 ≤ n) : (ofAlternatives cs).encode.depth ≤ n + 1 := by
  refine depth_encode_le_of_values rfl fun k v hv => ?_
  cases k with
  | anyOf =>
    refine depth_nonemptyList_le (fun w hw => ?_) hv
    change w ∈ encodeEach cs at hw
    rw [encodeEach_eq_map] at hw
    obtain ⟨c, hc, rfl⟩ := List.mem_map.1 hw
    exact each c hc
  | _ => cases hv

theorem depth_types_le {t : TypeTags} {v : Json} (h : t.encode? = some v) : v.depth ≤ 1 := by
  have shallow (texts : List String) : (strings texts).depth ≤ 1 := by
    refine Nat.succ_le_succ (elementsDepth_le_iff.2 fun w hw => ?_)
    obtain ⟨text, -, rfl⟩ := List.mem_map.1 hw
    exact Nat.le_refl 0
  unfold TypeTags.encode? TypeTags.encode at h
  split_ifs at h
  obtain rfl := Option.some.inj h
  split
  · exact Nat.zero_le 1
  · exact Nat.zero_le 1
  · exact shallow _
  · exact shallow _

/-- The depth of a rebuilt node whose children and examples lie two levels below `n + 1`, but for
the one schema of all elements, which may lie one level higher. -/
theorem depth_rebuild_le {n : Nat} {d : Schema} {types admitted : TypeTags}
    {properties : List (String × Schema)} {items : Option (Items Schema)} (positive : 1 ≤ n)
    (closed : types.contains "object" → 2 ≤ n)
    (hproperties : ∀ p ∈ properties, p.2.encode.depth + 1 ≤ n)
    (hitems : ∀ v, encodeItems? items = some v → v.depth ≤ n)
    (hexamples : ∀ e ∈ d.examples, e.depth + 1 ≤ n) :
    { d.rebuild types properties items with types := admitted : Schema }.encode.depth ≤ n + 1 := by
  refine depth_encode_le_of_values rfl fun k v hv => ?_
  cases k with
  | type => exact (depth_types_le hv).trans positive
  | minLength | maxLength | pattern | format | multipleOf | maximum | exclusiveMaximum | minimum
  | exclusiveMinimum | minItems | maxItems =>
    obtain ⟨x, -, rfl⟩ := Option.map_eq_some_iff.1 hv
    exact Nat.zero_le n
  | items => exact hitems v hv
  | properties =>
    refine depth_nonemptyMap_le (fun m hm => ?_) hv
    change m ∈ encodeMembers properties at hm
    rw [encodeMembers_eq_map] at hm
    obtain ⟨p, hp, rfl⟩ := List.mem_map.1 hm
    exact hproperties p hp
  | required =>
    refine depth_nonemptyList_le (fun w hw => ?_) hv
    obtain ⟨name, -, rfl⟩ := List.mem_map.1 hw
    exact positive
  | additionalProperties =>
    change encodeAdditionalProperties? (if _ then _ else _) = _ at hv
    split_ifs at hv with object
    · obtain rfl := Option.some.inj hv
      exact closed object
    · cases hv
  | examples => exact depth_nonemptyList_le hexamples hv
  | _ => cases hv

end Schema

/-! ## The depth of a form -/

open Schema

/-- Only an object has a form. -/
theorem exists_object_of_formOf {v : Json} {d c : Schema} (hd : decode v = .ok d)
    (hc : FormOf d c) : ∃ members, v = .object members := by
  obtain ⟨e, form, -⟩ := hc
  cases v with
  | object members => exact ⟨members, rfl⟩
  | bool yes =>
    cases yes <;> cases hd <;> cases form
  | _ => cases hd

theorem depth_itemsForm_le {n : Nat} {items : Option (Items Schema)}
    (item : ∀ e f, items = some (.single e) → compile e = some f → f.encode.depth ≤ n)
    (element : ∀ es, items = some (.tuple es) → ∀ e ∈ es, ∀ f, compile e = some f →
      f.encode.depth + 1 ≤ n)
    {v : Json} (hv : encodeItems? (itemsForm items) = some v) : v.depth ≤ n := by
  rcases form : itemsForm items with _ | (c | cs)
  · rw [form] at hv
    cases hv
  · rw [form] at hv
    obtain rfl := Option.some.inj hv
    obtain ⟨e, he, compiled⟩ := itemsForm_eq_single_iff.1 form
    exact item e c he compiled
  · rw [form] at hv
    obtain rfl := Option.some.inj hv
    obtain ⟨kept, es, hes, rfl⟩ := itemsForm_eq_tuple_iff.1 form
    have nonempty : nonemptyList (encodeEach (es.filterMap compile)) =
        some (.array (encodeEach (es.filterMap compile))) := by
      rw [encodeEach_eq_map, nonemptyList, if_neg]
      rwa [List.isEmpty_iff, List.map_eq_nil_iff]
    refine depth_nonemptyList_le (fun w hw => ?_) nonempty
    rw [encodeEach_eq_map] at hw
    obtain ⟨f, hf, rfl⟩ := List.mem_map.1 hw
    obtain ⟨e, he, compiled⟩ := List.mem_filterMap.1 hf
    exact element es hes e he f compiled

/-- The form of a document is at most one level deeper than the document. -/
theorem depth_encode_le {v : Json} {d c : Schema} (hd : decode v = .ok d) (hc : FormOf d c) :
    c.encode.depth ≤ v.depth + 1 := by
  induction level : v.depth using Nat.strong_induction_on generalizing v d c with
  | _ n ih =>
    obtain ⟨members, rfl⟩ := exists_object_of_formOf hd hc
    have below {w : Json} {e f : Schema} {k : Nat} (he : decode w = .ok e)
        (lower : w.depth + (k + 1) ≤ n) (hf : FormOf e f) : f.encode.depth + k ≤ n := by
      have deepens := ih w.depth (by omega) he hf rfl
      omega
    obtain ⟨choice, added, null, rfl⟩ | ⟨-, types, admitted, -, object, rfl⟩ := hc.cases
    · refine depth_ofAlternatives_le fun c mem => ?_
      rcases List.mem_append.1 mem with kept | new
      · obtain ⟨e, he, compiled⟩ := List.mem_filterMap.1 kept
        obtain ⟨w, read, lower⟩ := depth_of_mem_anyOf hd he
        exact below read (level ▸ lower) ⟨c, compiled, .inl rfl⟩
      · obtain ⟨e, he⟩ := List.exists_mem_of_ne_nil _ choice
        obtain ⟨w, -, lower⟩ := depth_of_mem_anyOf hd he
        rw [null c new]
        exact (Nat.le_add_left 2 w.depth).trans (level ▸ lower)
    · refine depth_rebuild_le (level ▸ Nat.le_add_left 1 _) (fun isObject => ?_) (fun q hq => ?_)
        (fun v hv => ?_) fun e he => (Nat.le_succ _).trans (level ▸ depth_of_mem_examples hd he)
      · have some := object isObject
        rw [formProperties, if_pos isObject] at some
        obtain ⟨q, hq⟩ := List.exists_mem_of_ne_nil _ some
        obtain ⟨p, hp, -⟩ := List.mem_filterMap.1 hq
        obtain ⟨w, -, lower⟩ := depth_of_mem_properties hd hp
        exact (Nat.le_add_left 2 w.depth).trans (level ▸ lower)
      · unfold formProperties at hq
        split_ifs at hq
        · obtain ⟨p, hp, form⟩ := List.mem_filterMap.1 hq
          obtain ⟨w, read, lower⟩ := depth_of_mem_properties hd hp
          exact below read (level ▸ lower) (formOf_of_propertyForm form)
        · cases hq
      · unfold formItems at hv
        split_ifs at hv
        · refine depth_itemsForm_le (fun e f he form => ?_) (fun es hes e he f form => ?_) hv
          · obtain ⟨w, read, lower⟩ := depth_of_item hd he
            exact below (k := 0) read (level ▸ lower) ⟨f, form, .inl rfl⟩
          · obtain ⟨w, read, lower⟩ := depth_of_mem_tuple hd hes he
            exact below read (level ▸ lower) ⟨f, form, .inl rfl⟩
        · cases hv

/-! ## Reading the form again -/

/-- The text of a form is read as the form, if the form is not nested too deep. -/
theorem decodeText_render {s r : Schema} (h : compile s = some r) (once : s.NamesOnce)
    (depth : r.encode.depth ≤ depthLimit) (format : Format) :
    decodeText decode (r.encode.render format) = .ok r := by
  have dialect := inDialect_of_compile h
  have read := read_render format depth (dialect.distinctNames (namesOnce_of_compile h once))
  unfold decodeText readText
  rw [read]
  exact congrArg (Except.mapError DocumentError.mismatched) dialect.isDocument.decode_encode_eq

/-- Arrays of arrays, `n` levels of them, of the given elements. -/
def arraysOf (element : Schema) : Nat → Schema
  | 0 => element
  | n + 1 => arrayOf (arraysOf element n)

section ArraysOf

variable {element : Schema}

theorem encode_arrayOf (s : Schema) :
    (arrayOf s).encode = .object [("type", .string "array"), ("items", s.encode)] := rfl

theorem depth_arraysOf (element : Schema) (n : Nat) :
    (arraysOf element n).encode.depth = element.encode.depth + n := by
  induction n with
  | zero => rfl
  | succ n ih =>
    rw [arraysOf, encode_arrayOf, depth_object, membersDepth, membersDepth, membersDepth, ih]
    have string : (Json.string "array").depth = 0 := rfl
    omega

theorem distinctNames_arraysOf (h : element.encode.DistinctNames) (n : Nat) :
    (arraysOf element n).encode.DistinctNames := by
  induction n with
  | zero => exact h
  | succ n ih =>
    rw [arraysOf, encode_arrayOf]
    exact ⟨(by decide : ["type", "items"].Nodup), trivial, ih, trivial⟩

theorem decode_arraysOf (h : decode element.encode = .ok element) (n : Nat) :
    decode (arraysOf element n).encode = .ok (arraysOf element n) := by
  induction n with
  | zero => exact h
  | succ n ih =>
    refine decode_encode_of_parts (f := id) (fun c hc => ?_) nofun
    obtain rfl : c = arraysOf element n := List.mem_singleton.1 hc
    exact ih

theorem compile_arraysOf {form : Schema} (h : compile element = some form) (n : Nat) :
    compile (arraysOf element n) = some (arraysOf form n) := by
  induction n with
  | zero => exact h
  | succ n ih =>
    have items : (arraysOf element (n + 1)).formItems (.single "array") =
        some (.single (arraysOf form n)) :=
      congrArg (Option.map Items.single) ih
    refine (compile_node_eq_some_iff rfl).2 ⟨.single "array", rfl, nofun, fun _ => ?_, ?_⟩
    · rw [items]
      nofun
    · rw [items]
      rfl

end ArraysOf

/-- An object with one optional member. -/
def optionalMember : Schema := .object [("a", .ofType "string")]

theorem distinctNames_optionalMember : optionalMember.encode.DistinctNames :=
  ⟨by decide, trivial, ⟨by decide, ⟨by decide, trivial, trivial⟩, trivial⟩, trivial⟩

/-- The form of `optionalMember`. -/
def optionalMemberForm : Schema where
  types := .single "object"
  properties := [("a", { types := .many ["string", "null"] })]
  required := ["a"]
  additionalProperties := some .nothing

/-- The form of a document is at most one level deeper than the document. If the document is less
deep than the reader's limit, the text of the form is read as the form; but there is a document that
can still be read, and whose form cannot. -/
theorem form_depth :
    (∀ v s r, decode v = .ok s → compile s = some r → r.encode.depth ≤ v.depth + 1) ∧
    (∀ v s r, v.DistinctNames → v.depth < depthLimit → decode v = .ok s → compile s = some r →
      r.encode.depth ≤ depthLimit ∧
        ∀ format, decodeText decode (r.encode.render format) = .ok r) ∧
    ∃ text v s r, Json.read text = .ok v ∧ v.depth = depthLimit ∧ decode v = .ok s ∧
      compile s = some r ∧ ∀ format, ∃ e, Json.read (r.encode.render format) = .error e := by
  have deepens : ∀ v s r, decode v = .ok s → compile s = some r →
      r.encode.depth ≤ v.depth + 1 :=
    fun v s r decoded compiled => depth_encode_le decoded ⟨r, compiled, .inl rfl⟩
  refine ⟨deepens, fun v s r distinct shallow decoded compiled => ?_, ?_⟩
  · have depth := (deepens v s r decoded compiled).trans shallow
    have once := namesOnce_of_decode distinct decoded
    exact ⟨depth, decodeText_render compiled once depth⟩
  · have decoded : decode _ = .ok (arraysOf optionalMember 124) := decode_arraysOf rfl 124
    have form : compile optionalMember = some optionalMemberForm := rfl
    have compiled := compile_arraysOf form 124
    have depth := depth_arraysOf optionalMember 124
    have distinct := distinctNames_arraysOf distinctNames_optionalMember 124
    have once := namesOnce_of_compile compiled (namesOnce_of_decode distinct decoded)
    refine ⟨_, _, _, _, read_render .compact (Nat.le_of_eq depth) distinct, depth, decoded,
      compiled, fun format => ?_⟩
    refine read_render_deep format ?_ ((inDialect_of_compile compiled).distinctNames once)
    rw [depth_arraysOf]
    decide

theorem form_depth_optionalMember :
    optionalMember.encode.depth = 3 ∧ optionalMemberForm.encode.depth = 4 ∧
      optionalMemberForm.encode.depth ≤ optionalMember.encode.depth + 1 ∧
      optionalMemberForm.encode.depth ≤ depthLimit ∧
      ∀ format, decodeText decode (optionalMemberForm.encode.render format) =
        .ok optionalMemberForm := by
  obtain ⟨deepens, again, -⟩ := form_depth
  exact ⟨rfl, rfl, deepens _ optionalMember optionalMemberForm rfl rfl,
    again _ optionalMember optionalMemberForm distinctNames_optionalMember (by decide) rfl rfl⟩

end StrictSchema
