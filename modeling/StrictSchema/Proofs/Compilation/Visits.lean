import StrictSchema.Proofs.Compilation.Supportable

/-!
# The nodes that compilation looks at

Compilation does not look at all nodes of a schema: what a node looks at is `Schema.lookedAt`, child
by child with the step that leads to it. A choice looks at its alternatives. A node without them
looks at nothing if its own keywords rule it out; otherwise it looks at its properties if it is an
object, and then at its items if it is an array and, as an object, still has a property.
`Schema.visitsAt` goes on like this from child to child and lists all nodes that are looked at with
their places, children before their node.
-/

namespace StrictSchema

namespace Schema

/-! ## The children of one node -/

/-- The items with the steps to them, in order. -/
def itemSteps (s : Schema) : List (Step × Schema) :=
  match s.items with
  | none => []
  | some (.single c) => [(.item, c)]
  | some (.tuple cs) => cs.zipIdx.map fun x => (.element x.2, x.1)

/-- An array has its items looked at, unless it is an object of whose properties none has a form. -/
def LooksAtItems (s : Schema) : Prop :=
  s.types.contains "array" ∧
    (s.types.contains "object" → ∃ c ∈ s.propertySchemas, (compile c).isSome)

instance (s : Schema) : Decidable s.LooksAtItems := by unfold LooksAtItems; infer_instance

/-- The children that are looked at, in order, with the steps to them. -/
def lookedAt (s : Schema) : List (Step × Schema) :=
  if s.anyOf ≠ [] then s.anyOf.zipIdx.map fun x => (.alternative x.2, x.1)
  else if s.IsExpressible then
    (if s.types.contains "object" then s.properties.map fun p => (.property p.1, p.2) else []) ++
      if s.LooksAtItems then s.itemSteps else []
  else []

variable {s : Schema}

theorem lookedAt_choice (h : s.anyOf ≠ []) :
    s.lookedAt = s.anyOf.zipIdx.map fun x => (.alternative x.2, x.1) := if_pos h

theorem lookedAt_node (h : s.anyOf = []) (hexpressible : s.IsExpressible) :
    s.lookedAt = (if s.types.contains "object" then s.properties.map fun p => (.property p.1, p.2)
      else []) ++ if s.LooksAtItems then s.itemSteps else [] := by
  rw [lookedAt, if_neg (not_not.2 h), if_pos hexpressible]

theorem lookedAt_eq_nil (h : s.anyOf = []) (hexpressible : ¬ s.IsExpressible) :
    s.lookedAt = [] := by
  rw [lookedAt, if_neg (not_not.2 h), if_neg hexpressible]

theorem IsChild.of_mem_zipIdx {cs : List Schema} {step : Nat → Step} {x : Step × Schema}
    (h : ∀ c ∈ cs, IsChild s c) (hx : x ∈ cs.zipIdx.map fun y => (step y.2, y.1)) :
    IsChild s x.2 := by
  obtain ⟨y, hy, rfl⟩ := List.mem_map.1 hx
  exact h y.1 (List.fst_mem_of_mem_zipIdx hy)

theorem IsChild.of_mem_itemSteps {x : Step × Schema} (h : x ∈ s.itemSteps) : IsChild s x.2 := by
  unfold itemSteps at h
  split at h
  · cases h
  · next hs => exact .item (List.mem_singleton.1 h ▸ hs)
  · next hs => exact .of_mem_zipIdx (fun c hc => .element hs hc) h

theorem IsChild.of_mem_lookedAt {x : Step × Schema} (h : x ∈ s.lookedAt) : IsChild s x.2 := by
  by_cases hs : s.anyOf = []
  · by_cases hexpressible : s.IsExpressible
    · rw [lookedAt_node hs hexpressible] at h
      rcases List.mem_append.1 h with h | h
      · obtain ⟨p, hp, rfl⟩ := List.mem_map.1 (List.mem_ite_nil_right.1 h).2
        exact .property hp
      · exact .of_mem_itemSteps (List.mem_ite_nil_right.1 h).2
    · rw [lookedAt_eq_nil hs hexpressible] at h
      cases h
  · rw [lookedAt_choice hs] at h
    exact .of_mem_zipIdx (fun c hc => .alternative hc) h

/-! ## All nodes -/

/-- The nodes that are looked at in a schema that stands at `path`, children before their node. -/
def visitsAt (path : Path) (s : Schema) : List (Path × Schema) :=
  (s.lookedAt.attach.flatMap fun x => visitsAt (path ++ [x.1.1]) x.1.2) ++ [(path, s)]
termination_by sizeOf s
decreasing_by exact IsChild.sizeOf_lt (.of_mem_lookedAt x.2)

/-- The nodes that are looked at in a whole schema. -/
def visits (s : Schema) : List (Path × Schema) := s.visitsAt []

theorem visitsAt_eq (path : Path) (s : Schema) :
    s.visitsAt path =
      (s.lookedAt.flatMap fun x => x.2.visitsAt (path ++ [x.1])) ++ [(path, s)] := by
  rw [visitsAt, List.flatMap_subtype, List.unattach_attach]
  exact fun x hx => rfl

/-- The root is looked at. -/
theorem mem_visitsAt_self (path : Path) (s : Schema) : (path, s) ∈ s.visitsAt path := by
  rw [visitsAt_eq]
  exact List.mem_append_right _ (List.mem_singleton_self _)

/-- With a node its children are looked at that it looks at. -/
theorem mem_visitsAt_child {path here : Path} {n c : Schema} {step : Step}
    (hn : (here, n) ∈ s.visitsAt path) (hc : (step, c) ∈ n.lookedAt) :
    (here ++ [step], c) ∈ s.visitsAt path := by
  induction s using childInduction generalizing path with
  | _ s ih =>
    rw [visitsAt_eq] at hn ⊢
    rcases List.mem_append.1 hn with hn | hn
    · obtain ⟨x, hx, hn⟩ := List.mem_flatMap.1 hn
      exact List.mem_append_left _ (List.mem_flatMap.2 ⟨x, hx, ih x.2 (.of_mem_lookedAt hx) hn⟩)
    · obtain ⟨rfl, rfl⟩ := Prod.mk.inj (List.mem_singleton.1 hn)
      exact List.mem_append_left _ (List.mem_flatMap.2 ⟨_, hc, mem_visitsAt_self _ c⟩)

end Schema

end StrictSchema
