import Mathlib.Logic.Relation
import StrictSchema.Schema.Basic

/-!
# The nodes of a schema

The children of a node, as far as the strict dialect knows them, are its alternatives, its
properties and its items (`Schema.IsChild`); the schemas under all other keywords are not among
them. The nodes of a schema are what can be reached from it by going to children
(`Schema.IsNode`). A child is smaller than its parent, so a property of all schemas may be proved of
a schema from its children (`Schema.childInduction`).
-/

namespace StrictSchema

namespace Schema

/-- `c` stands at one of the four kinds of places below `s`. -/
inductive IsChild (s : Schema) : Schema → Prop where
  | alternative {c : Schema} (hc : c ∈ s.anyOf) : IsChild s c
  | property {name : String} {c : Schema} (hc : (name, c) ∈ s.properties) : IsChild s c
  | item {c : Schema} (hc : s.items = some (.single c)) : IsChild s c
  | element {cs : List Schema} {c : Schema} (hcs : s.items = some (.tuple cs)) (hc : c ∈ cs) :
      IsChild s c

def propertySchemas (s : Schema) : List Schema := s.properties.map Prod.snd

/-- The schema of all elements, or those of the first elements. -/
def itemSchemas (s : Schema) : List Schema :=
  match s.items with
  | none => []
  | some (.single c) => [c]
  | some (.tuple cs) => cs

theorem IsChild.of_mem_propertySchemas {s c : Schema} (h : c ∈ s.propertySchemas) :
    IsChild s c := by
  obtain ⟨p, hp, rfl⟩ := List.mem_map.1 h
  exact .property hp

theorem IsChild.of_mem_itemSchemas {s c : Schema} (h : c ∈ s.itemSchemas) : IsChild s c := by
  unfold itemSchemas at h
  split at h
  · cases h
  · next hs => exact .item (List.mem_singleton.1 h ▸ hs)
  · next hs => exact .element hs h

/-- `d` is a node of `s`: the schema itself, or a node of one of its children. -/
def IsNode (s d : Schema) : Prop := Relation.ReflTransGen IsChild s d

theorem IsNode.refl (s : Schema) : IsNode s s := Relation.ReflTransGen.refl

theorem IsNode.of_child {s c d : Schema} (hc : IsChild s c) (hd : IsNode c d) : IsNode s d :=
  Relation.ReflTransGen.head hc hd

theorem isNode_iff (s d : Schema) : IsNode s d ↔ d = s ∨ ∃ c, IsChild s c ∧ IsNode c d := by
  unfold IsNode
  rw [Relation.ReflTransGen.cases_head_iff, eq_comm]

theorem IsChild.sizeOf_lt {s c : Schema} (h : IsChild s c) : sizeOf c < sizeOf s := by
  obtain ⟨types, anyOf, limits, format, items, properties⟩ := s
  cases h with
  | alternative hc =>
    have := List.sizeOf_lt_of_mem hc
    simp only [mk.sizeOf_spec] at this ⊢
    omega
  | property hc =>
    have := List.sizeOf_lt_of_mem hc
    simp only [mk.sizeOf_spec, Prod.mk.sizeOf_spec] at this ⊢
    omega
  | item hc =>
    simp only at hc
    subst hc
    simp only [mk.sizeOf_spec, Option.some.sizeOf_spec, Items.single.sizeOf_spec]
    omega
  | element hcs hc =>
    simp only at hcs
    subst hcs
    have := List.sizeOf_lt_of_mem hc
    simp only [mk.sizeOf_spec, Option.some.sizeOf_spec, Items.tuple.sizeOf_spec]
    omega

/-- What holds of a node whenever it holds of its children holds of all schemas. -/
@[elab_as_elim]
theorem childInduction {P : Schema → Prop} (step : ∀ s, (∀ c, IsChild s c → P c) → P s)
    (s : Schema) : P s :=
  step s fun c _ => childInduction step c
termination_by sizeOf s
decreasing_by exact IsChild.sizeOf_lt ‹_›

end Schema

end StrictSchema
