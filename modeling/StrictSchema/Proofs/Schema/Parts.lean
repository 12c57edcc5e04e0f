import StrictSchema.Proofs.Schema.Nodes

/-!
# The parts of a schema

The parts of a node are the schemas that stand right under its keywords, also under those that no
node of the strict dialect has (`Schema.parts`). `Schema.IsWithin` goes on from part to part, so it
reaches every schema of a document. A part is smaller than the node, and so a property of all
schemas may be proved of a node from its parts (`Schema.partInduction`).
-/

namespace StrictSchema

namespace Schema

/-- The schema of the other properties, if it is one. -/
def additionalSchemas (s : Schema) : List Schema :=
  match s.additionalProperties with
  | some (.schema c) => [c]
  | _ => []

def patternSchemas (s : Schema) : List Schema := (s.patternProperties.getD []).map Prod.snd

/-- The schemas under the keywords of a node. -/
def parts (s : Schema) : List Schema :=
  s.anyOf ++ (s.itemSchemas ++ (s.propertySchemas ++ (s.additionalSchemas ++ (s.not.toList ++
    (s.contains.toList ++ (s.patternSchemas ++ (s.additionalItems.toList ++
      (s.allOf.getD [] ++ (s.oneOf.getD [] ++ s.prefixItems.getD [])))))))))

/-- `d` is the schema itself, or stands somewhere under its keywords. -/
def IsWithin (s d : Schema) : Prop := Relation.ReflTransGen (fun s c => c ∈ s.parts) s d

theorem forall_isWithin_iff {s : Schema} {P : Schema → Prop} :
    (∀ d, IsWithin s d → P d) ↔ P s ∧ ∀ c ∈ s.parts, ∀ d, IsWithin c d → P d := by
  constructor
  · intro h
    exact ⟨h s .refl, fun c hc d hd => h d (.head hc hd)⟩
  · rintro ⟨hs, hparts⟩ d hd
    rcases Relation.ReflTransGen.cases_head_iff.1 hd with rfl | ⟨c, hc, hd⟩
    · exact hs
    · exact hparts c hc d hd

/-- `P` holds of the parts of a node, keyword by keyword. -/
structure EachPart (P : Schema → Prop) (s : Schema) : Prop where
  anyOf : ∀ c ∈ s.anyOf, P c
  items : ∀ c ∈ s.itemSchemas, P c
  properties : ∀ c ∈ s.propertySchemas, P c
  additionalProperties : ∀ c ∈ s.additionalSchemas, P c
  not : ∀ c ∈ s.not.toList, P c
  contains : ∀ c ∈ s.contains.toList, P c
  patternProperties : ∀ c ∈ s.patternSchemas, P c
  additionalItems : ∀ c ∈ s.additionalItems.toList, P c
  allOf : ∀ c ∈ s.allOf.getD [], P c
  oneOf : ∀ c ∈ s.oneOf.getD [], P c
  prefixItems : ∀ c ∈ s.prefixItems.getD [], P c

theorem eachPart_iff {P : Schema → Prop} {s : Schema} : s.EachPart P ↔ ∀ c ∈ s.parts, P c := by
  simp only [parts, List.forall_mem_append]
  constructor
  · rintro ⟨h₁, h₂, h₃, h₄, h₅, h₆, h₇, h₈, h₉, h₁₀, h₁₁⟩
    exact ⟨h₁, h₂, h₃, h₄, h₅, h₆, h₇, h₈, h₉, h₁₀, h₁₁⟩
  · rintro ⟨h₁, h₂, h₃, h₄, h₅, h₆, h₇, h₈, h₉, h₁₀, h₁₁⟩
    exact ⟨h₁, h₂, h₃, h₄, h₅, h₆, h₇, h₈, h₉, h₁₀, h₁₁⟩

theorem IsChild.mem_parts {s c : Schema} (h : IsChild s c) : c ∈ s.parts := by
  simp only [parts, List.mem_append]
  cases h with
  | alternative hc => exact .inl hc
  | property hc => exact .inr (.inr (.inl (List.mem_map_of_mem hc)))
  | item hc =>
    refine .inr (.inl ?_)
    rw [itemSchemas, hc]
    exact List.mem_singleton_self c
  | element hcs hc =>
    refine .inr (.inl ?_)
    rw [itemSchemas, hcs]
    exact hc

theorem IsNode.isWithin {s d : Schema} (h : IsNode s d) : s.IsWithin d :=
  Relation.ReflTransGen.mono (fun _ _ => IsChild.mem_parts) s d h

/-! ## Induction -/

theorem sizeOf_lt_of_mem_toList {o : Option Schema} {c : Schema} (h : c ∈ o.toList) :
    sizeOf c < sizeOf o := by
  obtain rfl := Option.mem_toList.1 h
  rw [Option.some.sizeOf_spec]
  omega

theorem sizeOf_lt_of_mem_getD {α : Type} [SizeOf α] {o : Option (List α)} {x : α}
    (h : x ∈ o.getD []) : sizeOf x < sizeOf o := by
  cases o with
  | none => cases h
  | some xs =>
    have : sizeOf x < sizeOf xs := List.sizeOf_lt_of_mem h
    rw [Option.some.sizeOf_spec]
    omega

theorem sizeOf_lt_of_mem_additionalSchemas {s c : Schema} (h : c ∈ s.additionalSchemas) :
    sizeOf c < sizeOf s.additionalProperties := by
  unfold additionalSchemas at h
  split at h
  · next hs =>
    obtain rfl := List.mem_singleton.1 h
    rw [hs, Option.some.sizeOf_spec, AdditionalProperties.schema.sizeOf_spec]
    omega
  · cases h

theorem sizeOf_lt_of_mem_patternSchemas {s c : Schema} (h : c ∈ s.patternSchemas) :
    sizeOf c < sizeOf s.patternProperties := by
  obtain ⟨p, hp, rfl⟩ := List.mem_map.1 h
  have : sizeOf p < sizeOf s.patternProperties := sizeOf_lt_of_mem_getD hp
  rw [Prod.mk.sizeOf_spec] at this
  omega

theorem sizeOf_fields_lt (s : Schema) : sizeOf s.additionalProperties + sizeOf s.not +
    sizeOf s.contains + sizeOf s.patternProperties + sizeOf s.additionalItems + sizeOf s.allOf +
    sizeOf s.oneOf + sizeOf s.prefixItems < sizeOf s := by
  cases s
  simp only [mk.sizeOf_spec]
  omega

theorem sizeOf_lt_of_mem_parts {s c : Schema} (h : c ∈ s.parts) : sizeOf c < sizeOf s := by
  have hs := sizeOf_fields_lt s
  simp only [parts, List.mem_append] at h
  rcases h with h | h | h | h | h | h | h | h | h | h | h
  · exact IsChild.sizeOf_lt (.alternative h)
  · exact IsChild.sizeOf_lt (.of_mem_itemSchemas h)
  · exact IsChild.sizeOf_lt (.of_mem_propertySchemas h)
  · have := sizeOf_lt_of_mem_additionalSchemas h
    omega
  · have := sizeOf_lt_of_mem_toList h
    omega
  · have := sizeOf_lt_of_mem_toList h
    omega
  · have := sizeOf_lt_of_mem_patternSchemas h
    omega
  · have := sizeOf_lt_of_mem_toList h
    omega
  · have := sizeOf_lt_of_mem_getD h
    omega
  · have := sizeOf_lt_of_mem_getD h
    omega
  · have := sizeOf_lt_of_mem_getD h
    omega

/-- What holds of a node whenever it holds of its parts holds of all schemas. -/
@[elab_as_elim]
theorem partInduction {P : Schema → Prop} (step : ∀ s, (∀ c ∈ s.parts, P c) → P s) (s : Schema) :
    P s :=
  step s fun c _ => partInduction step c
termination_by sizeOf s
decreasing_by exact sizeOf_lt_of_mem_parts ‹_›

/-! ## Changing the parts -/

end Schema

def Items.map {σ τ : Type} (f : σ → τ) : Items σ → Items τ
  | .single c => .single (f c)
  | .tuple cs => .tuple (cs.map f)

def AdditionalProperties.map {σ τ : Type} (f : σ → τ) :
    AdditionalProperties σ → AdditionalProperties τ
  | .allowed yes => .allowed yes
  | .schema c => .schema (f c)

namespace Schema

/-- The node with `f` applied to each of its parts. -/
def mapParts (f : Schema → Schema) (s : Schema) : Schema :=
  { s with
    anyOf := s.anyOf.map f
    items := s.items.map (.map f)
    properties := s.properties.map (Prod.map id f)
    additionalProperties := s.additionalProperties.map (.map f)
    not := s.not.map f
    contains := s.contains.map f
    patternProperties := s.patternProperties.map (List.map (Prod.map id f))
    additionalItems := s.additionalItems.map f
    allOf := s.allOf.map (List.map f)
    oneOf := s.oneOf.map (List.map f)
    prefixItems := s.prefixItems.map (List.map f) }

theorem parts_mapParts (f : Schema → Schema) (s : Schema) :
    (s.mapParts f).parts = s.parts.map f := by
  have hitems : (s.mapParts f).itemSchemas = s.itemSchemas.map f := by
    unfold mapParts itemSchemas
    rcases s.items with _ | c | cs <;> rfl
  have hadditional : (s.mapParts f).additionalSchemas = s.additionalSchemas.map f := by
    unfold mapParts additionalSchemas
    rcases s.additionalProperties with _ | yes | c <;> rfl
  have hproperties : (s.mapParts f).propertySchemas = s.propertySchemas.map f := by
    simp [mapParts, propertySchemas]
  have hpattern : (s.mapParts f).patternSchemas = s.patternSchemas.map f := by
    unfold mapParts patternSchemas
    cases s.patternProperties <;> simp
  have hlist (cs : Option (List Schema)) : (cs.map (List.map f)).getD [] = (cs.getD []).map f := by
    cases cs <;> rfl
  have hoption (c : Option Schema) : (c.map f).toList = c.toList.map f := by
    cases c <;> rfl
  simp only [parts, hitems, hadditional, hproperties, hpattern, List.map_append, ← hlist, ← hoption]
  rfl

theorem map_eq_self {α : Type} {f : α → α} {xs : List α} (h : ∀ x ∈ xs, f x = x) :
    xs.map f = xs :=
  (List.map_congr_left h).trans (List.map_id xs)

theorem map_snd_eq_self {f : Schema → Schema} {ps : List (String × Schema)}
    (h : ∀ c ∈ ps.map Prod.snd, f c = c) : ps.map (Prod.map id f) = ps :=
  map_eq_self fun _ hp => Prod.ext rfl (h _ (List.mem_map_of_mem hp))

theorem mapParts_eq_self {f : Schema → Schema} {s : Schema} (h : ∀ c ∈ s.parts, f c = c) :
    s.mapParts f = s := by
  cases s with
  | mk types anyOf limits format items properties required additionalProperties not const contains
      uniqueItems deprecated readOnly patternProperties additionalItems allOf oneOf prefixItems =>
    have h := eachPart_iff.2 h
    have hoption (c : Option Schema) (h : ∀ x ∈ c.toList, f x = x) : c.map f = c := by
      cases c with
      | none => rfl
      | some c => exact congrArg some (h c (List.mem_singleton_self c))
    have hlist (cs : Option (List Schema)) (h : ∀ x ∈ cs.getD [], f x = x) :
        cs.map (List.map f) = cs := by
      cases cs with
      | none => rfl
      | some cs => exact congrArg some (map_eq_self h)
    have hitems : items.map (.map f) = items := by
      rcases items with _ | c | cs
      · rfl
      · exact congrArg (some ∘ Items.single) (h.items c (List.mem_singleton_self c))
      · exact congrArg (some ∘ Items.tuple) (map_eq_self h.items)
    have hadditional : additionalProperties.map (.map f) = additionalProperties := by
      rcases additionalProperties with _ | yes | c
      · rfl
      · rfl
      · exact congrArg (some ∘ AdditionalProperties.schema)
          (h.additionalProperties c (List.mem_singleton_self c))
    have hpattern : patternProperties.map (List.map (Prod.map id f)) = patternProperties := by
      cases patternProperties with
      | none => rfl
      | some ps => exact congrArg some (map_snd_eq_self h.patternProperties)
    simp only [mapParts, map_eq_self h.anyOf, hitems, map_snd_eq_self h.properties, hadditional,
      hoption _ h.not, hoption _ h.contains, hpattern, hoption _ h.additionalItems,
      hlist _ h.allOf, hlist _ h.oneOf, hlist _ h.prefixItems]

theorem mapParts_eq_self_iff {f : Schema → Schema} {s : Schema} :
    s.mapParts f = s ↔ ∀ c ∈ s.parts, f c = c := by
  constructor
  · intro h c hc
    have hparts : s.parts.map f = s.parts.map id := by
      rw [← parts_mapParts, h, List.map_id]
    exact List.map_inj_left.1 hparts c hc
  · exact mapParts_eq_self

end Schema

end StrictSchema
