import StrictSchema.Proofs.Acceptance.NullMembers
import StrictSchema.Proofs.Acceptance.Reading
import StrictSchema.Proofs.Compilation.Dialect
import StrictSchema.Proofs.Compilation.Forms

/-!
# Comparing what two schemas accept

One schema is simulated by another along a relation of values if each value that it accepts is
related to one that the other accepts (`Reading.Simulates`). Simulations of children make a
simulation of the items of two arrays (`Reading.exists_acceptsItems`). In the dialect, admitting
null adds null to what a schema accepts and nothing else (`Reading.accepts_withNull_iff`).
-/

namespace StrictSchema

open Schema

namespace Reading

variable {R : Reading}

/-! ## Null -/

theorem accepts_ofType_null_iff {v : Json} : R.accepts (ofType "null") v ↔ v = .null := by
  rw [accepts_node_iff rfl, hasType_iff]
  constructor
  · rintro ⟨⟨name, hname, hv⟩, -⟩
    obtain rfl : name = "null" := List.mem_singleton.1 hname
    exact eq_null_of_mem_typesOf hv
  · rintro rfl
    exact ⟨⟨"null", List.mem_singleton.2 rfl, List.mem_singleton.2 rfl⟩, rfl, nofun, nofun⟩

/-- A strict node whose only type is null accepts null, whatever else it says. -/
theorem accepts_null_of_isNullOnly {s : Schema} (hs : s.IsStrict) (hnull : s.types.isNullOnly) :
    R.accepts s .null := by
  cases hs with
  | choice hne honly =>
    have htypes : s.types = {} := by
      rw [honly]
      rfl
    rw [htypes] at hnull
    exact absurd hnull (by decide)
  | node hs =>
    rw [accepts_node_iff hs.anyOf, hasType_iff]
    refine ⟨?_, rfl, nofun, nofun⟩
    simp only [TypeTags.isNullOnly, Bool.and_eq_true, List.all_eq_true, beq_iff_eq] at hnull
    obtain ⟨name, hname⟩ := List.exists_mem_of_ne_nil _ hs.types.names_ne_nil
    exact ⟨name, hname, List.mem_singleton.2 (hnull.2 name hname)⟩

theorem accepts_withNull_iff {s : Schema} (h : InDialect s) {v : Json} :
    R.accepts s.withNull v ↔ R.accepts s v ∨ v = .null := by
  cases h.isStrict with
  | choice hne honly =>
    rw [withNull_choice hne]
    split_ifs with hnull
    · -- the null that is admitted already
      refine ⟨Or.inl, ?_⟩
      rintro (hv | rfl)
      · exact hv
      · obtain ⟨c, hc, hcnull⟩ := List.any_eq_true.1 hnull
        exact (accepts_choice_iff hne).2
          ⟨c, hc, accepts_null_of_isNullOnly (h.child (.alternative hc)).isStrict hcnull⟩
    · rw [accepts_choice_iff (by simp), accepts_choice_iff hne]
      simp only [List.mem_append, List.mem_singleton, or_and_right, exists_or, exists_eq_left,
        accepts_ofType_null_iff]
  | node hs =>
    have hwithNull : { s with types := s.types.withNull }.anyOf = [] := hs.anyOf
    rw [withNull_node hs.anyOf, accepts_node_iff hwithNull, accepts_node_iff hs.anyOf, hasType_iff,
      hasType_iff]
    simp only [hs.types.mem_names_withNull]
    constructor
    · rintro ⟨⟨name, hname | rfl, hv⟩, hrest⟩
      · exact .inl ⟨⟨name, hname, hv⟩, hrest⟩
      · exact .inr (eq_null_of_mem_typesOf hv)
    · rintro (⟨⟨name, hname, hv⟩, hrest⟩ | rfl)
      · exact ⟨⟨name, .inl hname, hv⟩, hrest⟩
      · exact ⟨⟨"null", .inr rfl, List.mem_singleton.2 rfl⟩, rfl, nofun, nofun⟩

/-! ## Items -/

/-- Each value that `c` accepts is related to a value that `d` accepts. -/
def Simulates (R : Reading) (P : Json → Json → Prop) (c d : Schema) : Prop :=
  ∀ v, R.accepts c v → ∃ w, P v w ∧ R.accepts d w

/-- Items of the same kind, with related schemas. -/
inductive ItemsRelated (Q : Schema → Schema → Prop) : Items Schema → Items Schema → Prop where
  | single {c d : Schema} (h : Q c d) : ItemsRelated Q (.single c) (.single d)
  | tuple {cs ds : List Schema} (h : List.Forall₂ Q cs ds) : ItemsRelated Q (.tuple cs) (.tuple ds)

theorem ItemsRelated.flip {Q : Schema → Schema → Prop} {a b : Items Schema}
    (h : ItemsRelated Q a b) : ItemsRelated (flip Q) b a := by
  cases h with
  | single h => exact .single h
  | tuple h => exact .tuple h.flip

variable {P : Json → Json → Prop}

theorem Simulates.exists_elements {c d : Schema} (h : R.Simulates P c d) {vs : List Json}
    (hvs : ∀ v ∈ vs, R.accepts c v) :
    ∃ ws, List.Forall₂ P vs ws ∧ ∀ w ∈ ws, R.accepts d w := by
  induction vs with
  | nil => exact ⟨[], .nil, List.forall_mem_nil _⟩
  | cons v rest ih =>
    obtain ⟨hv, hrest⟩ := List.forall_mem_cons.1 hvs
    obtain ⟨w, hvw, hw⟩ := h v hv
    obtain ⟨ws, hws, hall⟩ := ih hrest
    exact ⟨w :: ws, .cons hvw hws, List.forall_mem_cons.2 ⟨hw, hall⟩⟩

theorem exists_acceptsEach (hrefl : ∀ v, P v v) {cs ds : List Schema}
    (h : List.Forall₂ (R.Simulates P) cs ds) {vs : List Json} (hvs : R.acceptsEach cs vs) :
    ∃ ws, List.Forall₂ P vs ws ∧ R.acceptsEach ds ws := by
  induction h generalizing vs with
  | nil => exact ⟨vs, List.forall₂_same.2 fun v _ => hrefl v, by simp [acceptsEach]⟩
  | cons hcd _ ih =>
    cases vs with
    | nil => exact ⟨[], .nil, by simp [acceptsEach]⟩
    | cons v rest =>
      simp only [acceptsEach, Bool.and_eq_true] at hvs
      obtain ⟨w, hvw, hw⟩ := hcd v hvs.1
      obtain ⟨ws, hws, hall⟩ := ih hvs.2
      exact ⟨w :: ws, .cons hvw hws, by simp [acceptsEach, hw, hall]⟩

theorem exists_acceptsItems (hrefl : ∀ v, P v v) {a b : Items Schema}
    (h : ItemsRelated (R.Simulates P) a b) {vs : List Json} (hvs : R.acceptsItems (some a) vs) :
    ∃ ws, List.Forall₂ P vs ws ∧ R.acceptsItems (some b) ws := by
  cases h with
  | single h =>
    simp only [acceptsItems, List.all_eq_true] at hvs ⊢
    exact h.exists_elements hvs
  | tuple h =>
    simp only [acceptsItems, Bool.and_eq_true] at hvs ⊢
    obtain ⟨ws, hws, hall⟩ := exists_acceptsEach hrefl h hvs.2
    exact ⟨ws, hws, by rw [← h.length_eq, ← hws.length_eq]; exact hvs.1, hall⟩

end Reading

/-! ## Nodes and their forms -/

/-- If no schema of the list is dropped, the forms stand in the places of their sources. -/
theorem forall₂_filterMap_compile {cs : List Schema} (h : ∀ c ∈ cs, (compile c).isSome) :
    List.Forall₂ (fun c d => c ∈ cs ∧ compile c = some d) cs (cs.filterMap compile) := by
  induction cs with
  | nil => exact .nil
  | cons c rest ih =>
    obtain ⟨hc, hrest⟩ := List.forall_mem_cons.1 h
    obtain ⟨d, hd⟩ := Option.isSome_iff_exists.1 hc
    rw [List.filterMap_cons_some hd]
    refine .cons ⟨List.mem_cons_self, hd⟩ ((ih hrest).imp fun _ _ hmem => ?_)
    exact ⟨List.mem_cons_of_mem _ hmem.1, hmem.2⟩

/-- The items of an array and of its form correspond if no element of a tuple is dropped. -/
theorem exists_itemsRelated {s : Schema} {types : TypeTags} {Q : Schema → Schema → Prop}
    (hnode : s.anyOf = []) (ht : s.strictTypes = .ok types) (harray : s.types.contains "array")
    (hform : types.contains "array" → s.formItems types ≠ none)
    (htuple : ∀ cs, s.items = some (.tuple cs) → ∀ c ∈ cs, (compile c).isSome)
    (hQ : ∀ c d, s.Uses c → compile c = some d → Q c d) :
    ∃ a b, s.items = some a ∧ s.formItems types = some b ∧ Reading.ItemsRelated Q a b := by
  have htypes : types.contains "array" := (contains_array_of_strictTypes ht).trans harray
  obtain ⟨b, hb⟩ := Option.ne_none_iff_exists'.1 (hform htypes)
  have hitems : itemsForm s.items = some b := by rwa [formItems, if_pos htypes] at hb
  cases b with
  | single d =>
    obtain ⟨c, hc, hd⟩ := itemsForm_eq_single_iff.1 hitems
    exact ⟨_, _, hc, hb, .single (hQ c d (.item hnode harray hc) hd)⟩
  | tuple ds =>
    obtain ⟨-, cs, hcs, rfl⟩ := itemsForm_eq_tuple_iff.1 hitems
    refine ⟨_, _, hcs, hb, .tuple ((forall₂_filterMap_compile (htuple cs hcs)).imp ?_)⟩
    intro c d hcd
    exact hQ c d (.element hnode harray hcs hcd.1) hcd.2

namespace Reading

variable {R : Reading} {s : Schema} {types : TypeTags}

/-- Unsupported names hold of no value, so it does not matter that they are gone. -/
theorem hasType_strictTypes (ht : s.strictTypes = .ok types) (v : Json) :
    R.hasType types v ↔ R.hasType s.types v := by
  rw [hasType_iff, hasType_iff]
  simp only [TypeTags.mem_names_of_resolve (strictTypes_eq_ok_iff.1 ht).1]
  constructor
  · rintro ⟨name, ⟨hname, -⟩, hv⟩
    exact ⟨name, hname, hv⟩
  · rintro ⟨name, hname, hv⟩
    exact ⟨name, ⟨hname, mem_supportedTypes_of_mem_typesOf hv⟩, hv⟩

theorem hasType_object_iff {ms : List (String × Json)} :
    R.hasType types (.object ms) ↔ types.contains "object" := by
  rw [hasType_iff, TypeTags.contains_iff]
  simp [typesOf]

theorem hasType_array_iff {vs : List Json} :
    R.hasType types (.array vs) ↔ types.contains "array" := by
  rw [hasType_iff, TypeTags.contains_iff]
  simp [typesOf]

theorem usedFormat_rebuild (properties : List (String × Schema)) (items : Option (Items Schema)) :
    (s.rebuild types properties items).usedFormat = s.usedFormat := by
  show (s.format.filter fun f => !f.isEmpty).filter (fun f => !f.isEmpty) = s.usedFormat
  rw [Option.filter_filter]
  simp only [Bool.and_self]
  rfl

theorem accepts_rebuild_iff (ht : s.strictTypes = .ok types)
    {properties : List (String × Schema)} {items : Option (Items Schema)} {v : Json} :
    R.accepts (s.rebuild types properties items) v ↔
      R.hasType s.types v ∧ R.keepsLimits s.limits s.usedFormat v ∧
        (∀ ms, v = .object ms → (∀ name ∈ Members.names properties, name ∈ Members.names ms) ∧
          ∀ m ∈ ms, ∃ c, (m.1, c) ∈ properties ∧ R.accepts c m.2) ∧
        ∀ vs, v = .array vs → R.acceptsItems items vs := by
  have hnode : (s.rebuild types properties items).anyOf = [] := rfl
  rw [accepts_node_iff hnode, usedFormat_rebuild, ← hasType_strictTypes ht]
  rfl

end Reading

end StrictSchema
