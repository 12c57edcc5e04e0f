import Mathlib.Data.List.Forall2
import Mathlib.Data.List.Nodup
import Mathlib.Data.List.Perm.Subperm
import Mathlib.Tactic.SplitIfs
import StrictSchema.Members

/-!
# Laws of members

A name that was given a value has it, and no other name is touched. Where names are not repeated,
the order of members does not matter for looking them up, and lists of members can be compared
without it (`Members.Rel`).
-/

namespace StrictSchema

section Aligned

variable {α β : Type} {R : α → β → Prop} {xs : List α} {ys : List β}

theorem exists_of_mem_right (aligned : List.Forall₂ R xs ys) {y : β} (h : y ∈ ys) :
    ∃ x ∈ xs, R x y := by
  induction aligned with
  | nil => cases h
  | @cons x _ _ _ rel _ ih =>
    rcases List.mem_cons.1 h with rfl | later
    · exact ⟨x, List.mem_cons_self, rel⟩
    · obtain ⟨x', mem, rel'⟩ := ih later
      exact ⟨x', List.mem_cons_of_mem x mem, rel'⟩

theorem exists_of_mem_left (aligned : List.Forall₂ R xs ys) {x : α} (h : x ∈ xs) :
    ∃ y ∈ ys, R x y :=
  exists_of_mem_right aligned.flip h

end Aligned

namespace Members

section Insert

variable {α : Type} {name other : String} {value : α} {ms : List (String × α)}

theorem find?_cons (m : String × α) :
    find? name (m :: ms) = if m.1 = name then some m.2 else find? name ms := rfl

theorem find?_insert_self (name : String) (value : α) (ms : List (String × α)) :
    find? name (insert name value ms) = some value := by
  induction ms with
  | nil => exact if_pos rfl
  | cons m ms ih =>
    rw [insert]
    split_ifs with same
    · rw [find?_cons, if_pos same]
    · rw [find?_cons, if_neg same, ih]

theorem find?_insert_of_ne (h : other ≠ name) (value : α) (ms : List (String × α)) :
    find? name (insert other value ms) = find? name ms := by
  induction ms with
  | nil => exact if_neg h
  | cons m ms ih =>
    rw [insert]
    split_ifs with same
    · have differs : m.1 ≠ name := same ▸ h
      rw [find?_cons, find?_cons, if_neg differs, if_neg differs]
    · rw [find?_cons, find?_cons, ih]

theorem isSome_find?_insert (h : (find? name ms).isSome) (other : String) (value : α) :
    (find? name (insert other value ms)).isSome := by
  by_cases same : other = name
  · rw [same, find?_insert_self]
    rfl
  · rwa [find?_insert_of_ne same]

theorem insert_insert_self (name : String) (value next : α) (ms : List (String × α)) :
    insert name next (insert name value ms) = insert name next ms := by
  induction ms with
  | nil => exact if_pos rfl
  | cons m ms ih =>
    by_cases same : m.1 = name
    · simp only [insert, if_pos same]
    · simp only [insert, if_neg same, ih]

/-- A name that is there keeps its place when it is given another value. -/
theorem insert_comm (differ : name ≠ other) (there : (find? name ms).isSome) (value next : α) :
    insert other next (insert name value ms) = insert name value (insert other next ms) := by
  induction ms with
  | nil => cases there
  | cons m ms ih =>
    by_cases same : m.1 = name
    · have not : m.1 ≠ other := same ▸ differ
      simp only [insert, if_pos same, if_neg not]
    · rw [find?_cons, if_neg same] at there
      by_cases second : m.1 = other
      · simp only [insert, if_neg same, if_pos second]
      · simp only [insert, if_neg same, if_neg second, ih there]

end Insert

section Find

variable {α : Type} {name : String}

theorem find?_map {β : Type} (f : α → β) (ms : List (String × α)) :
    find? name (ms.map (Prod.map id f)) = (find? name ms).map f := by
  induction ms with
  | nil => rfl
  | cons m ms ih =>
    rw [List.map_cons, find?_cons, find?_cons, ih, apply_ite (Option.map f)]
    rfl

/-- A member is looked past for another name. -/
theorem find?_append_cons_of_ne {m : String × α} (differs : m.1 ≠ name)
    (before after : List (String × α)) :
    find? name (before ++ m :: after) = find? name (before ++ after) := by
  induction before with
  | nil => exact if_neg differs
  | cons first before ih =>
    rw [List.cons_append, List.cons_append, find?_cons, find?_cons, ih]

theorem mem_of_find? {ms : List (String × α)} {x : α} (h : find? name ms = some x) :
    (name, x) ∈ ms := by
  induction ms with
  | nil => cases h
  | cons m ms ih =>
    rw [find?_cons] at h
    split_ifs at h with same
    · cases h
      exact same ▸ List.mem_cons_self
    · exact List.mem_cons_of_mem m (ih h)

theorem find?_of_mem {ms : List (String × α)} (nodup : (names ms).Nodup) {m : String × α}
    (h : m ∈ ms) : find? m.1 ms = some m.2 := by
  induction ms with
  | nil => cases h
  | cons first ms ih =>
    obtain ⟨fresh, nodup⟩ := List.nodup_cons.1 nodup
    rw [find?_cons]
    rcases List.mem_cons.1 h with rfl | later
    · exact if_pos rfl
    · have differs : first.1 ≠ m.1 := fun same => fresh (same ▸ List.mem_map_of_mem later)
      rw [if_neg differs, ih nodup later]

end Find

/-! ## Members in any order -/

variable {α β : Type} {R : α → β → Prop}

/-- As many members, and each member of the first list is related to one of its name in the second.
-/
structure Rel (R : α → β → Prop) (xs : List (String × α)) (ys : List (String × β)) : Prop where
  length : xs.length = ys.length
  found : ∀ m ∈ xs, ∃ y, find? m.1 ys = some y ∧ R m.2 y

section Rel

variable {xs : List (String × α)} {ys zs : List (String × β)}

theorem names_eq_of_forall₂ (aligned : List.Forall₂ (fun m z => m.1 = z.1 ∧ R m.2 z.2) xs zs) :
    names zs = names xs := by
  induction aligned with
  | nil => rfl
  | cons first _ ih => exact congrArg₂ List.cons first.1.symm ih

theorem exists_aligned (found : ∀ m ∈ xs, ∃ y, find? m.1 ys = some y ∧ R m.2 y) :
    ∃ zs, List.Forall₂ (fun m z => m.1 = z.1 ∧ R m.2 z.2) xs zs ∧ zs ⊆ ys := by
  induction xs with
  | nil => exact ⟨[], .nil, List.nil_subset ys⟩
  | cons m xs ih =>
    obtain ⟨⟨y, hy, related⟩, others⟩ := List.forall_mem_cons.1 found
    obtain ⟨zs, aligned, sub⟩ := ih others
    exact ⟨(m.1, y) :: zs, .cons ⟨rfl, related⟩ aligned,
      List.cons_subset.2 ⟨mem_of_find? hy, sub⟩⟩

variable (once : (names xs).Nodup)
include once

/-- The members are related one by one, and then the second list may be in another order. -/
theorem rel_iff :
    Rel R xs ys ↔ ∃ zs, List.Forall₂ (fun m z => m.1 = z.1 ∧ R m.2 z.2) xs zs ∧ zs.Perm ys := by
  constructor
  · rintro ⟨length, found⟩
    obtain ⟨zs, aligned, sub⟩ := exists_aligned found
    have distinct : (names zs).Nodup := (names_eq_of_forall₂ aligned).symm ▸ once
    have part : zs.Subperm ys := List.subperm_of_subset (.of_map Prod.fst distinct) sub
    have whole : ys.length ≤ zs.length := Nat.le_of_eq (length.symm.trans aligned.length_eq)
    exact ⟨zs, aligned, part.perm_of_length_le whole⟩
  · rintro ⟨zs, aligned, perm⟩
    refine ⟨aligned.length_eq.trans perm.length_eq, fun m hm => ?_⟩
    have distinct : (names zs).Nodup := (names_eq_of_forall₂ aligned).symm ▸ once
    obtain ⟨z, hz, name, related⟩ := exists_of_mem_left aligned hm
    have place := find?_of_mem ((perm.map Prod.fst).nodup_iff.1 distinct) (perm.subset hz)
    exact ⟨z.2, name ▸ place, related⟩

variable (h : Rel R xs ys)
include h

theorem Rel.names_perm : (names xs).Perm (names ys) := by
  obtain ⟨zs, aligned, perm⟩ := (rel_iff once).1 h
  have same : names zs = names xs := names_eq_of_forall₂ aligned
  exact same ▸ perm.map Prod.fst

theorem Rel.nodup : (names ys).Nodup := (h.names_perm once).nodup_iff.1 once

/-- Members of the same name are related. -/
theorem Rel.related {m : String × α} {n : String × β} (hm : m ∈ xs) (hn : n ∈ ys)
    (name : m.1 = n.1) : R m.2 n.2 := by
  obtain ⟨y, hy, related⟩ := h.found m hm
  rw [name, find?_of_mem (h.nodup once) hn] at hy
  cases hy
  exact related

/-- Members are selected by their names. -/
theorem Rel.filter (selects : String → Bool) :
    Rel R (xs.filter fun m => selects m.1) (ys.filter fun n => selects n.1) := by
  obtain ⟨zs, aligned, perm⟩ := (rel_iff once).1 h
  refine (rel_iff ((List.filter_sublist.map Prod.fst).nodup once)).2
    ⟨zs.filter fun z => selects z.1, ?_, perm.filter _⟩
  refine List.rel_filter (fun m z related => ?_) aligned
  exact iff_of_eq (congrArg (selects · = true) related.1)

theorem Rel.exists_of_mem_right {n : String × β} (hn : n ∈ ys) :
    ∃ m ∈ xs, m.1 = n.1 ∧ R m.2 n.2 := by
  obtain ⟨m, hm, name⟩ := List.mem_map.1 ((h.names_perm once).mem_iff.2 (List.mem_map_of_mem hn))
  exact ⟨m, hm, name, h.related once hm hn name⟩

end Rel

end Members

end StrictSchema
