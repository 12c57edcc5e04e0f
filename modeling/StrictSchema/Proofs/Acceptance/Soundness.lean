import StrictSchema.Proofs.Acceptance.Simulation
import StrictSchema.Proofs.Compilation.FixedPoints

/-!
# What a form accepts, its source accepts

A value that is made to fit a form has null for the properties that its source leaves optional.
Deleting such members, at any depth, gives a value that the source accepts, provided that nothing
the source insists on was dropped: that the required names of each kept object are properties that
are kept, and that no tuple lost an element (`Schema.KeepsNeeded`).
-/

namespace StrictSchema

open Schema

/-- `d` is a node of `s` that is still there in the form of `s`. -/
def Schema.KeepsNode (s d : Schema) : Prop :=
  Relation.ReflTransGen (fun s c => Uses s c ∧ (compile c).isSome) s d

theorem Schema.forall_keepsNode_iff {s : Schema} {P : Schema → Prop} :
    (∀ d, s.KeepsNode d → P d) ↔
      P s ∧ ∀ c, s.Uses c → (compile c).isSome → ∀ d, c.KeepsNode d → P d := by
  constructor
  · intro h
    exact ⟨h s .refl, fun c hc hform d hd => h d (.head ⟨hc, hform⟩ hd)⟩
  · rintro ⟨hs, hchildren⟩ d hd
    rcases Relation.ReflTransGen.cases_head hd with rfl | ⟨c, ⟨hc, hform⟩, hd⟩
    · exact hs
    · exact hchildren c hc hform d hd

/-- The required names of an object are properties that have a form, and so have all elements of a
tuple. -/
structure Schema.KeepsNeeded (s : Schema) : Prop where
  required : s.anyOf = [] → s.types.contains "object" → ∀ name ∈ s.required,
    ∃ c, (name, c) ∈ s.properties ∧ (compile c).isSome
  elements : s.anyOf = [] → s.types.contains "array" → ∀ cs, s.items = some (.tuple cs) →
    ∀ c ∈ cs, (compile c).isSome

namespace Reading

variable {R : Reading} {s r : Schema} {types : TypeTags}

theorem simulates_form_choice {P : Json → Json → Prop} (hne : s.anyOf ≠ [])
    (h : compile s = some r) (ih : ∀ c d, s.Uses c → compile c = some d → R.Simulates P d c) :
    R.Simulates P r s := by
  obtain ⟨hkept, rfl⟩ := (compile_choice_eq_some_iff hne).1 h
  intro v hv
  obtain ⟨d, hd, hdv⟩ := (accepts_choice_iff hkept).1 hv
  obtain ⟨c, hc, hcd⟩ := List.mem_filterMap.1 hd
  obtain ⟨w, hvw, hw⟩ := ih c d (.alternative hc) hcd v hdv
  exact ⟨w, hvw, (accepts_choice_iff hne).2 ⟨c, hc, hw⟩⟩

/-- A member that fits the form fits the source, unless it is null and not required. -/
theorem exists_source_member (hnode : s.anyOf = []) (ht : s.strictTypes = .ok types)
    (ih : ∀ c d, s.Uses c → compile c = some d → R.Simulates Json.Thinned d c)
    {name : String} {v : Json} (h : ∃ d, (name, d) ∈ s.formProperties types ∧ R.accepts d v) :
    (∃ w, Json.Thinned v w ∧ ∃ c, (name, c) ∈ s.properties ∧ R.accepts c w) ∨
      (v = .null ∧ name ∉ s.required) := by
  obtain ⟨d, hd, hv⟩ := h
  obtain ⟨hobject, c, e, hc, he, rfl⟩ := (mem_formProperties ht).1 hd
  have huses : s.Uses c := .property hnode hobject hc
  have hsource : R.accepts e v →
      ∃ w, Json.Thinned v w ∧ ∃ c, (name, c) ∈ s.properties ∧ R.accepts c w := by
    intro hv
    obtain ⟨w, hvw, hw⟩ := ih c e huses he v hv
    exact ⟨w, hvw, c, hc, hw⟩
  split_ifs at hv with hrequired
  · exact .inl (hsource hv)
  · rcases (accepts_withNull_iff (inDialect_of_compile he)).1 hv with hv | hnull
    · exact .inl (hsource hv)
    · exact .inr ⟨hnull, mt List.contains_iff_mem.2 hrequired⟩

theorem simulates_form_node (hnode : s.anyOf = []) (h : compile s = some r)
    (hkeeps : s.KeepsNeeded)
    (ih : ∀ c d, s.Uses c → compile c = some d → R.Simulates Json.Thinned d c) :
    R.Simulates Json.Thinned r s := by
  obtain ⟨types, ht, -, hitems, rfl⟩ := (compile_node_eq_some_iff hnode).1 h
  intro v hv
  obtain ⟨htype, hlimits, hmembers, helements⟩ := (accepts_rebuild_iff ht).1 hv
  cases v with
  | object ms =>
    have hobject := hasType_object_iff.1 htype
    obtain ⟨hnames, hall⟩ := hmembers ms rfl
    obtain ⟨ns, hns, haccepts, hneeded⟩ :=
      Members.exists_thinned (P := Json.Thinned) (D := (· ∉ s.required))
        (Q := fun name w => ∃ c, (name, c) ∈ s.properties ∧ R.accepts c w)
        fun m hm => exists_source_member hnode ht ih (hall m hm)
    refine ⟨.object ns, .object hns, (accepts_node_iff hnode).2 ⟨htype, rfl, ?_, nofun⟩⟩
    rintro _ ⟨⟩
    refine ⟨fun name hname => ?_, haccepts⟩
    -- a required name is one of the form, hence a name of the object, and stays
    obtain ⟨c, hc, hform⟩ := hkeeps.required hnode hobject name hname
    obtain ⟨e, he⟩ := Option.isSome_iff_exists.1 hform
    have hmem := (mem_formProperties ht).2 ⟨hobject, c, e, hc, he, rfl⟩
    exact hneeded name (hnames name (Members.mem_names_iff.2 ⟨_, hmem⟩)) (not_not_intro hname)
  | array vs =>
    have harray := hasType_array_iff.1 htype
    obtain ⟨a, b, ha, hb, hrelated⟩ :=
      exists_itemsRelated hnode ht harray hitems (hkeeps.elements hnode harray) ih
    obtain ⟨ws, hws, haccepts⟩ :=
      exists_acceptsItems .refl hrelated.flip (hb ▸ helements vs rfl)
    refine ⟨.array ws, .array hws, (accepts_node_iff hnode).2 ⟨htype, ?_, nofun, ?_⟩⟩
    · rwa [keepsLimits, ← hws.length_eq]
    · rintro _ ⟨⟩
      exact ha ▸ haccepts
  | _ => exact ⟨_, .refl _, (accepts_node_iff hnode).2 ⟨htype, hlimits, nofun, nofun⟩⟩

/-- Each value that fits the form of a schema is accepted by the schema once some of its null
members are deleted, if no kept node has lost a required property or an element of a tuple. -/
theorem accepts_source_of_accepts_form (R : Reading) {s r : Schema} (h : compile s = some r)
    (hkeeps : ∀ d, s.KeepsNode d → d.KeepsNeeded) (v : Json) (hv : R.accepts r v) :
    ∃ w, Json.Thinned v w ∧ R.accepts s w := by
  induction s using childInduction generalizing r v with
  | _ s ih =>
    obtain ⟨hneeded, hbelow⟩ := forall_keepsNode_iff.1 hkeeps
    have hchild : ∀ c d, s.Uses c → compile c = some d → R.Simulates Json.Thinned d c :=
      fun c d hc hd v hv => ih c hc.isChild hd (hbelow c hc (Option.isSome_of_eq_some hd)) v hv
    by_cases hs : s.anyOf = []
    · exact simulates_form_node hs h hneeded hchild v hv
    · exact simulates_form_choice hs h hchild v hv

/-- A node that is neither an object nor an array, and so uses nothing, needs nothing. -/
theorem keepsNeeded_ofType {name : String} (hname : name ≠ "object" ∧ name ≠ "array") :
    ∀ d, (ofType name).KeepsNode d → d.KeepsNeeded := by
  have hcontains : ∀ other, name ≠ other → ¬ (ofType name).types.contains other := by
    intro other hne
    simp [ofType, TypeTags.contains_iff, hne.symm]
  have hobject := hcontains "object" hname.1
  have harray := hcontains "array" hname.2
  refine forall_keepsNode_iff.2 ⟨⟨fun _ h => absurd h hobject, fun _ h => absurd h harray⟩, ?_⟩
  exact (forall_uses_node rfl).2 ⟨fun h => absurd h hobject, fun h => absurd h harray⟩

theorem keepsNeeded_optionalChoice : ∀ d, optionalChoice.KeepsNode d → d.KeepsNeeded := by
  have hdropped : ¬ (compile { uniqueItems := true }).isSome := by decide
  have hchoice : ∀ d, (ofAlternatives [ofType "number", { uniqueItems := true }]).KeepsNode d →
      d.KeepsNeeded := by
    refine forall_keepsNode_iff.2 ⟨⟨nofun, nofun⟩, (forall_uses_choice (by nofun)).2 ?_⟩
    refine List.forall_mem_cons.2 ⟨fun _ => keepsNeeded_ofType (by decide), ?_⟩
    exact List.forall_mem_singleton.2 fun h => absurd h hdropped
  have harray : ¬ optionalChoice.types.contains "array" := by decide
  refine forall_keepsNode_iff.2 ⟨⟨?_, fun _ h => absurd h harray⟩,
    (forall_uses_node rfl).2 ⟨fun _ => ?_, fun h => absurd h harray⟩⟩
  · rintro _ _ name hname
    obtain rfl := List.mem_singleton.1 hname
    exact ⟨_, List.mem_cons_self, rfl⟩
  · refine List.forall_mem_cons.2 ⟨fun _ => keepsNeeded_ofType (by decide), ?_⟩
    exact List.forall_mem_singleton.2 fun _ => hchoice

/-- The member of the optional choice is null, and is deleted. -/
theorem accepts_optionalChoice :
    shapes.accepts optionalChoiceForm (.object [("m", .string "x"), ("n", .null)]) ∧
      ∃ w, Json.Thinned (.object [("m", .string "x"), ("n", .null)]) w ∧
        shapes.accepts optionalChoice w := by
  have haccepts :
      shapes.accepts optionalChoiceForm (.object [("m", .string "x"), ("n", .null)]) := by decide
  exact ⟨haccepts, accepts_source_of_accepts_form shapes rfl keepsNeeded_optionalChoice _ haccepts⟩

end Reading

end StrictSchema
