import Mathlib.Data.List.Forall2
import StrictSchema.Json.Basic

/-!
# Null members that come and go

A value that fits a form and a value that fits its source differ by members that are null.
`Json.Thinned v w` says that `w` is `v` without some of its null members, and `Json.Completed v w`
that `w` is `v` with null members for names that were not there, both at any depth.
-/

namespace StrictSchema

/-- The same names in the same order, with related values. -/
inductive Members.Pointwise (P : Json → Json → Prop) :
    List (String × Json) → List (String × Json) → Prop where
  | nil : Pointwise P [] []
  | cons {name : String} {v w : Json} {ms ns : List (String × Json)} (hv : P v w)
      (hms : Pointwise P ms ns) : Pointwise P ((name, v) :: ms) ((name, w) :: ns)

/-- Related values under the same names, and null members on the left that are gone on the right. -/
inductive Members.Thinned (P : Json → Json → Prop) :
    List (String × Json) → List (String × Json) → Prop where
  | nil : Thinned P [] []
  | keep {name : String} {v w : Json} {ms ns : List (String × Json)} (hv : P v w)
      (hms : Thinned P ms ns) : Thinned P ((name, v) :: ms) ((name, w) :: ns)
  | drop {name : String} {ms ns : List (String × Json)} (hms : Thinned P ms ns) :
      Thinned P ((name, .null) :: ms) ns

namespace Json

/-- The second value is the first one after some null members have been deleted at any depth. -/
inductive Thinned : Json → Json → Prop where
  | refl (v : Json) : Thinned v v
  | array {vs ws : List Json} (h : List.Forall₂ Thinned vs ws) : Thinned (.array vs) (.array ws)
  | object {ms ns : List (String × Json)} (h : Members.Thinned Thinned ms ns) :
      Thinned (.object ms) (.object ns)

/-- The second value is the first one after null members have been added at any depth, each under a
name that the object did not have. Which names may be added is up to the schema that is to accept
the second value: it rejects those that it does not declare. -/
inductive Completed : Json → Json → Prop where
  | refl (v : Json) : Completed v v
  | array {vs ws : List Json} (h : List.Forall₂ Completed vs ws) :
      Completed (.array vs) (.array ws)
  | object {ms ns : List (String × Json)} {added : List String}
      (h : Members.Pointwise Completed ms ns) (hnodup : added.Nodup)
      (habsent : ∀ name ∈ added, name ∉ Members.names ms) :
      Completed (.object ms) (.object (ns ++ added.map fun name => (name, .null)))

end Json

namespace Members

theorem mem_names_iff {α : Type} {name : String} {ms : List (String × α)} :
    name ∈ names ms ↔ ∃ x, (name, x) ∈ ms := by
  simp [names]

theorem names_append_nulls (ms : List (String × Json)) (added : List String) :
    names (ms ++ added.map fun name => (name, .null)) = names ms ++ added := by
  simp [names, Function.comp_def]

variable {P : Json → Json → Prop} {Q : String → Json → Prop}

theorem Pointwise.names_eq {ms ns : List (String × Json)} (h : Pointwise P ms ns) :
    names ns = names ms := by
  induction h with
  | nil => rfl
  | @cons name v w ms ns _ _ ih => exact congrArg (name :: ·) ih

theorem exists_pointwise {ms : List (String × Json)} (h : ∀ m ∈ ms, ∃ w, P m.2 w ∧ Q m.1 w) :
    ∃ ns, Pointwise P ms ns ∧ ∀ n ∈ ns, Q n.1 n.2 := by
  induction ms with
  | nil => exact ⟨[], .nil, List.forall_mem_nil _⟩
  | cons m rest ih =>
    obtain ⟨hm, hrest⟩ := List.forall_mem_cons.1 h
    obtain ⟨w, hv, hw⟩ := hm
    obtain ⟨ns, hns, hall⟩ := ih hrest
    exact ⟨(m.1, w) :: ns, .cons hv hns, List.forall_mem_cons.2 ⟨hw, hall⟩⟩

/-- Members that either have a related value or are null and dispensable can be thinned to those
with a related value; no other name gets lost. -/
theorem exists_thinned {D : String → Prop} {ms : List (String × Json)}
    (h : ∀ m ∈ ms, (∃ w, P m.2 w ∧ Q m.1 w) ∨ (m.2 = .null ∧ D m.1)) :
    ∃ ns, Thinned P ms ns ∧ (∀ n ∈ ns, Q n.1 n.2) ∧
      ∀ name ∈ names ms, ¬ D name → name ∈ names ns := by
  induction ms with
  | nil => exact ⟨[], .nil, List.forall_mem_nil _, fun _ h => absurd h List.not_mem_nil⟩
  | cons m rest ih =>
    obtain ⟨hm, hrest⟩ := List.forall_mem_cons.1 h
    obtain ⟨ns, hns, hall, hnames⟩ := ih hrest
    obtain ⟨name, v⟩ := m
    rcases hm with ⟨w, hv, hw⟩ | ⟨hnull, hname⟩
    · refine ⟨(name, w) :: ns, .keep hv hns, List.forall_mem_cons.2 ⟨hw, hall⟩, ?_⟩
      intro other hother hneeded
      rcases List.mem_cons.1 hother with rfl | hother
      · exact List.mem_cons_self
      · exact List.mem_cons_of_mem _ (hnames other hother hneeded)
    · obtain rfl : v = .null := hnull
      refine ⟨ns, .drop hns, hall, ?_⟩
      intro other hother hneeded
      rcases List.mem_cons.1 hother with rfl | hother
      · exact absurd hname hneeded
      · exact hnames other hother hneeded

end Members

end StrictSchema
