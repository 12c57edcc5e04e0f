import Mathlib.Data.List.Dedup
import StrictSchema.Proofs.Acceptance.Simulation
import StrictSchema.Proofs.Compilation.FixedPoints

/-!
# What a source accepts, its form accepts

If nothing is pruned, no value gets lost on the way from a schema to its form: a value that the
schema accepts fits the form as soon as the properties that it leaves out are there as null. A
property that is left out was not required, so its form admits null.
-/

namespace StrictSchema

open Schema

namespace Reading

variable {R : Reading} {s r : Schema} {types : TypeTags}

theorem simulates_source_choice {P : Json → Json → Prop} (hne : s.anyOf ≠ [])
    (h : compile s = some r) (hforms : ∀ c, s.Uses c → (compile c).isSome)
    (ih : ∀ c d, s.Uses c → compile c = some d → R.Simulates P c d) : R.Simulates P s r := by
  obtain ⟨hkept, rfl⟩ := (compile_choice_eq_some_iff hne).1 h
  intro v hv
  obtain ⟨c, hc, hcv⟩ := (accepts_choice_iff hne).1 hv
  obtain ⟨d, hd⟩ := Option.isSome_iff_exists.1 (hforms c (.alternative hc))
  obtain ⟨w, hvw, hw⟩ := ih c d (.alternative hc) hd v hcv
  exact ⟨w, hvw, (accepts_choice_iff hkept).2 ⟨d, List.mem_filterMap.2 ⟨c, hc, hd⟩, hw⟩⟩

section Members

variable (hnode : s.anyOf = []) (ht : s.strictTypes = .ok types)
  (hobject : s.types.contains "object") (hforms : ∀ c, s.Uses c → (compile c).isSome)
include hnode ht hobject hforms

/-- A member that fits the source fits the form, where all types and alternatives are kept. -/
theorem exists_form_member
    (ih : ∀ c d, s.Uses c → compile c = some d → R.Simulates Json.Completed c d)
    {name : String} {v : Json} (h : ∃ c, (name, c) ∈ s.properties ∧ R.accepts c v) :
    ∃ w, Json.Completed v w ∧ ∃ d, (name, d) ∈ s.formProperties types ∧ R.accepts d w := by
  obtain ⟨c, hc, hv⟩ := h
  have huses : s.Uses c := .property hnode hobject hc
  obtain ⟨e, he⟩ := Option.isSome_iff_exists.1 (hforms c huses)
  obtain ⟨w, hvw, hw⟩ := ih c e huses he v hv
  refine ⟨w, hvw, _, (mem_formProperties ht).2 ⟨hobject, c, e, hc, he, rfl⟩, ?_⟩
  split_ifs
  · exact hw
  · exact (accepts_withNull_iff (inDialect_of_compile he)).2 (.inl hw)

/-- A property that is not required admits null in the form. -/
theorem exists_form_null {name : String} (hname : name ∈ Members.names s.properties)
    (hrequired : name ∉ s.required) :
    ∃ d, (name, d) ∈ s.formProperties types ∧ R.accepts d .null := by
  obtain ⟨c, hc⟩ := Members.mem_names_iff.1 hname
  obtain ⟨e, he⟩ := Option.isSome_iff_exists.1 (hforms c (.property hnode hobject hc))
  refine ⟨_, (mem_formProperties ht).2 ⟨hobject, c, e, hc, he, rfl⟩, ?_⟩
  rw [if_neg (mt List.contains_iff_mem.1 hrequired)]
  exact (accepts_withNull_iff (inDialect_of_compile he)).2 (.inr rfl)

end Members

theorem simulates_source_node (hnode : s.anyOf = []) (h : compile s = some r)
    (hforms : ∀ c, s.Uses c → (compile c).isSome)
    (ih : ∀ c d, s.Uses c → compile c = some d → R.Simulates Json.Completed c d) :
    R.Simulates Json.Completed s r := by
  obtain ⟨types, ht, -, hitems, rfl⟩ := (compile_node_eq_some_iff hnode).1 h
  intro v hv
  obtain ⟨htype, hlimits, hmembers, helements⟩ := (accepts_node_iff hnode).1 hv
  cases v with
  | object ms =>
    have hobject := hasType_object_iff.1 htype
    obtain ⟨hrequired, hall⟩ := hmembers ms rfl
    obtain ⟨ns, hns, haccepts⟩ :=
      Members.exists_pointwise (P := Json.Completed)
        (Q := fun name w => ∃ d, (name, d) ∈ s.formProperties types ∧ R.accepts d w)
        fun m hm => exists_form_member hnode ht hobject hforms ih (hall m hm)
    -- the declared names that the object lacks
    let added := ((Members.names s.properties).filter (· ∉ Members.names ms)).dedup
    have hadded : ∀ name, name ∈ added ↔
        name ∈ Members.names s.properties ∧ name ∉ Members.names ms := by
      simp [added]
    refine ⟨_, .object hns (List.nodup_dedup _) fun name hname => ((hadded name).1 hname).2,
      (accepts_rebuild_iff ht).2 ⟨htype, rfl, ?_, nofun⟩⟩
    rintro _ ⟨⟩
    constructor
    · intro name hname
      obtain ⟨d, hd⟩ := Members.mem_names_iff.1 hname
      obtain ⟨-, c, -, hc, -⟩ := (mem_formProperties ht).1 hd
      rw [Members.names_append_nulls, hns.names_eq, List.mem_append, hadded]
      by_cases hms : name ∈ Members.names ms
      · exact .inl hms
      · exact .inr ⟨Members.mem_names_iff.2 ⟨c, hc⟩, hms⟩
    · intro m hm
      rcases List.mem_append.1 hm with hm | hm
      · exact haccepts m hm
      · obtain ⟨name, hname, rfl⟩ := List.mem_map.1 hm
        obtain ⟨hdeclared, habsent⟩ := (hadded name).1 hname
        exact exists_form_null hnode ht hobject hforms hdeclared
          fun hname => habsent (hrequired name hname)
  | array vs =>
    have harray := hasType_array_iff.1 htype
    obtain ⟨a, b, ha, hb, hrelated⟩ := exists_itemsRelated hnode ht harray hitems
      (fun cs hcs c hc => hforms c (.element hnode harray hcs hc)) ih
    obtain ⟨ws, hws, haccepts⟩ := exists_acceptsItems .refl hrelated (ha ▸ helements vs rfl)
    refine ⟨.array ws, .array hws, (accepts_rebuild_iff ht).2 ⟨htype, ?_, nofun, ?_⟩⟩
    · rwa [keepsLimits, ← hws.length_eq]
    · rintro _ ⟨⟩
      exact hb ▸ haccepts
  | _ => exact ⟨_, .refl _, (accepts_rebuild_iff ht).2 ⟨htype, hlimits, nofun, nofun⟩⟩

/-- If nothing is pruned, each value that a schema accepts fits the form of the schema once null
members are added for properties that it leaves out. -/
theorem accepts_form_of_accepts_source (R : Reading) {s r : Schema} (h : compile s = some r)
    (hprunings : prunings s = []) (v : Json) (hv : R.accepts s v) :
    ∃ w, Json.Completed v w ∧ R.accepts r w := by
  induction s using childInduction generalizing r v with
  | _ s ih =>
    obtain ⟨-, hnone⟩ := prunings_eq_nil_iff.1 hprunings
    have hforms : ∀ c, s.Uses c → (compile c).isSome :=
      fun c hc => (prunings_eq_nil_iff.1 (hnone c hc)).1
    have hchild : ∀ c d, s.Uses c → compile c = some d → R.Simulates Json.Completed c d :=
      fun c d hc hd v hv => ih c hc.isChild hd (hnone c hc) v hv
    by_cases hs : s.anyOf = []
    · exact simulates_source_node hs h hforms hchild v hv
    · exact simulates_source_choice hs h hforms hchild v hv

/-- A list of objects with an optional number. -/
def optionalNumbers : Schema :=
  arrayOf { object [("m", ofType "string"), ("n", ofType "number")] with required := ["m"] }

/-- The number is not there, and becomes null. -/
theorem accepts_optionalNumbers :
    shapes.accepts optionalNumbers (.array [.object [("m", .string "x")]]) ∧
      ∃ r w, compile optionalNumbers = some r ∧
        Json.Completed (.array [.object [("m", .string "x")]]) w ∧ shapes.accepts r w := by
  have haccepts : shapes.accepts optionalNumbers (.array [.object [("m", .string "x")]]) := by
    decide
  obtain ⟨w, hcompleted, hw⟩ := accepts_form_of_accepts_source shapes rfl rfl _ haccepts
  exact ⟨haccepts, _, w, rfl, hcompleted, hw⟩

end Reading

end StrictSchema
