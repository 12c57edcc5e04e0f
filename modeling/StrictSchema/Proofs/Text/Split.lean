import Mathlib.Tactic.SplitIfs
import StrictSchema.Text.Split

/-!
# Laws of splitting

A text is cut at its first separator (`Text.cut_append`), and its first piece ends there
(`Text.split_append`). In the other direction, the pieces of a text are what stands between its
separators (`Text.eq_of_cut`, `Text.eq_of_split`).
-/

namespace StrictSchema.Text

variable {α : Type} [DecidableEq α] {sep : α} {cs before after piece : List α}
  {pieces : List (List α)}

/-! ## Cutting -/

theorem eq_of_cut (h : cut sep cs = some (before, after)) : cs = before ++ sep :: after := by
  induction cs generalizing before with
  | nil => cases h
  | cons c cs ih =>
    rw [cut] at h
    split_ifs at h with same
    · obtain ⟨rfl, rfl⟩ := Prod.mk.inj (Option.some.inj h)
      rw [same, List.nil_append]
    · obtain ⟨⟨before', after'⟩, hcut, hpair⟩ := Option.map_eq_some_iff.1 h
      obtain ⟨rfl, rfl⟩ := Prod.mk.inj hpair
      rw [ih hcut, List.cons_append]

theorem cut_append (h : sep ∉ before) :
    cut sep (before ++ sep :: after) = some (before, after) := by
  induction before with
  | nil => exact if_pos rfl
  | cons c before ih =>
    obtain ⟨other, rest⟩ := List.ne_and_not_mem_of_not_mem_cons h
    rw [List.cons_append, cut, if_neg (Ne.symm other), ih rest]
    rfl

/-- Texts are equal up to their first separator and after it. -/
theorem append_sep_inj {xs ys as bs : List α} (hx : sep ∉ xs) (hy : sep ∉ ys)
    (h : xs ++ sep :: as = ys ++ sep :: bs) : xs = ys ∧ as = bs := by
  have same : cut sep (xs ++ sep :: as) = some (xs, as) := cut_append hx
  rw [h, cut_append hy] at same
  obtain ⟨before, after⟩ := Prod.mk.inj (Option.some.inj same)
  exact ⟨before.symm, after.symm⟩

theorem cut_of_notMem (h : sep ∉ cs) : cut sep cs = none := by
  induction cs with
  | nil => rfl
  | cons c cs ih =>
    obtain ⟨other, rest⟩ := List.ne_and_not_mem_of_not_mem_cons h
    rw [cut, if_neg (Ne.symm other), ih rest, Option.map_none]

/-! ## Splitting -/

theorem split_ne_nil (sep : α) (cs : List α) : split sep cs ≠ [] := by
  cases cs with
  | nil => exact List.cons_ne_nil _ _
  | cons c cs =>
    rw [split]
    split
    · exact List.cons_ne_nil _ _
    · split_ifs <;> exact List.cons_ne_nil _ _

theorem split_of_notMem (h : sep ∉ cs) : split sep cs = [cs] := by
  induction cs with
  | nil => rfl
  | cons c cs ih =>
    obtain ⟨other, rest⟩ := List.ne_and_not_mem_of_not_mem_cons h
    simp only [split, ih rest, if_neg (Ne.symm other)]

theorem split_append_sep (sep : α) (before after : List α) :
    split sep (before ++ sep :: after) = split sep before ++ split sep after := by
  obtain ⟨piece, pieces, hafter⟩ := List.exists_cons_of_ne_nil (split_ne_nil sep after)
  induction before with
  | nil => simp only [List.nil_append, split, hafter, if_pos, List.singleton_append]
  | cons c before ih =>
    obtain ⟨first, others, hbefore⟩ := List.exists_cons_of_ne_nil (split_ne_nil sep before)
    rw [hbefore] at ih
    simp only [List.cons_append, split, ih, hbefore]
    split_ifs <;> rfl

theorem split_append (h : sep ∉ before) (after : List α) :
    split sep (before ++ sep :: after) = before :: split sep after := by
  rw [split_append_sep, split_of_notMem h, List.singleton_append]

/-- What is joined with separators is split again. -/
theorem split_append_flatMap (h : sep ∉ piece) (hs : ∀ p ∈ pieces, sep ∉ p) :
    split sep (piece ++ pieces.flatMap (sep :: ·)) = piece :: pieces := by
  induction pieces generalizing piece with
  | nil => rw [List.flatMap_nil, List.append_nil, split_of_notMem h]
  | cons next pieces ih =>
    obtain ⟨hnext, hpieces⟩ := List.forall_mem_cons.1 hs
    rw [List.flatMap_cons, List.cons_append, split_append h, ih hnext hpieces]

/-- The pieces have all elements but the separators. -/
theorem forall_mem_split_iff {p : α → Prop} :
    (∀ piece ∈ split sep cs, ∀ c ∈ piece, p c) ↔ ∀ c ∈ cs, c ≠ sep → p c := by
  induction cs with
  | nil => simp [split]
  | cons c cs ih =>
    obtain ⟨first, others, hcs⟩ := List.exists_cons_of_ne_nil (split_ne_nil sep cs)
    rw [hcs, List.forall_mem_cons] at ih
    rw [List.forall_mem_cons, ← ih, split, hcs]
    dsimp only
    split_ifs with same
    · simp [same]
    · simp [same, and_assoc]

/-- The first piece is all there is, or the other pieces are those of what follows it. -/
theorem eq_of_split (h : split sep cs = piece :: pieces) :
    cs = piece ∧ pieces = [] ∨ ∃ rest, cs = piece ++ sep :: rest ∧ split sep rest = pieces := by
  induction cs generalizing piece with
  | nil =>
    obtain ⟨rfl, rfl⟩ := List.cons.inj h
    exact .inl ⟨rfl, rfl⟩
  | cons c cs ih =>
    obtain ⟨first, others, hcs⟩ := List.exists_cons_of_ne_nil (split_ne_nil sep cs)
    simp only [split, hcs] at h
    split_ifs at h with same
    · obtain ⟨rfl, rfl⟩ := List.cons.inj h
      exact .inr ⟨cs, by rw [same, List.nil_append], hcs⟩
    · obtain ⟨rfl, rfl⟩ := List.cons.inj h
      rcases ih hcs with ⟨rfl, rfl⟩ | ⟨rest, rfl, hrest⟩
      · exact .inl ⟨rfl, rfl⟩
      · exact .inr ⟨rest, List.cons_append, hrest⟩

end StrictSchema.Text
