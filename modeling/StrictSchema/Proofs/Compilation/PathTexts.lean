import StrictSchema.Compilation.Pruning
import StrictSchema.Proofs.Number.Digits
import StrictSchema.Proofs.Text.Split

/-!
# The texts of paths

The names of properties stand in the text of a path as they are, and they may look like anything,
also like an index or a keyword. Where no name has a slash, the text is still cut at its slashes
into the pieces that the steps are made of (`Path.split_text`). Each piece but the first of a step
belongs to the keyword before it, and an index never looks like a keyword, so that the steps are
found again: different paths have different texts (`Path.text_inj`).
-/

namespace StrictSchema

namespace Step

/-- Whether a step is written without slashes of its own. -/
def IsPlain : Step → Prop
  | .property name => '/' ∉ name.toList
  | _ => True

/-- What follows the slashes of a step. -/
def pieces : Step → List (List Char)
  | .alternative i => [['a', 'n', 'y', 'O', 'f'], Decimal.digitsOf i]
  | .property name => [['p', 'r', 'o', 'p', 'e', 'r', 't', 'i', 'e', 's'], name.toList]
  | .item => [['i', 't', 'e', 'm', 's']]
  | .element i => [['i', 't', 'e', 'm', 's'], Decimal.digitsOf i]

theorem chars_eq (step : Step) : step.chars = step.pieces.flatMap ('/' :: ·) := by
  cases step <;> simp [chars, pieces]

theorem notMem_digitsOf {c : Char} (h : ¬ c.isDigit) (i : Nat) : c ∉ Decimal.digitsOf i :=
  fun mem => h (Decimal.isDigit_of_mem_digitsOf mem)

theorem IsPlain.slash_notMem_pieces {step : Step} (h : step.IsPlain) :
    ∀ piece ∈ step.pieces, '/' ∉ piece := by
  have index (i : Nat) : '/' ∉ Decimal.digitsOf i := notMem_digitsOf (by decide) i
  cases step with
  | alternative i => simp [pieces, index]
  | property name =>
    have name : '/' ∉ name.toList := h
    simp [pieces, name]
  | item => simp [pieces]
  | element i => simp [pieces, index]

end Step

namespace Path

/-- The text of a path, cut at its slashes. -/
theorem split_text {path : Path} (h : ∀ step ∈ path, step.IsPlain) :
    Text.split '/' path.text.toList = ['#'] :: path.flatMap Step.pieces := by
  have chars : path.text.toList = ['#'] ++ (path.flatMap Step.pieces).flatMap ('/' :: ·) := by
    rw [text, String.toList_ofList, List.flatMap_assoc, List.singleton_append]
    exact congrArg ('#' :: ·) (List.flatMap_congr fun step _ => step.chars_eq)
  rw [chars, Text.split_append_flatMap (by decide)]
  intro piece hpiece
  obtain ⟨step, hstep, hpiece⟩ := List.mem_flatMap.1 hpiece
  exact (h step hstep).slash_notMem_pieces piece hpiece

/-- The first piece of a path is a keyword. -/
theorem flatMap_pieces_ne_digits (path : Path) (i : Nat) (rest : List (List Char)) :
    path.flatMap Step.pieces ≠ Decimal.digitsOf i :: rest := by
  intro h
  cases path with
  | nil => cases h
  | cons step path =>
    have letter : ∃ c ∈ Decimal.digitsOf i, ¬ c.isDigit := by
      cases step <;> rw [← (List.cons.inj h).1] <;> simp
    obtain ⟨c, hc, hletter⟩ := letter
    exact Step.notMem_digitsOf hletter i hc

/-- The pieces of a path determine its first step and the pieces of the others. -/
theorem step_eq_of_pieces {a b : Step} {p q : Path}
    (h : a.pieces ++ p.flatMap Step.pieces = b.pieces ++ q.flatMap Step.pieces) :
    a = b ∧ p.flatMap Step.pieces = q.flatMap Step.pieces := by
  cases a <;> cases b <;> simp [Step.pieces] at h
  case alternative.alternative i j =>
    exact ⟨congrArg Step.alternative (Decimal.digitsOf_injective h.1), h.2⟩
  case property.property m n =>
    exact ⟨congrArg Step.property (String.toList_inj.1 h.1), h.2⟩
  case item.item => exact ⟨rfl, h⟩
  case element.element i j =>
    exact ⟨congrArg Step.element (Decimal.digitsOf_injective h.1), h.2⟩
  -- after a step to all elements there is no index
  case item.element i => exact absurd h (flatMap_pieces_ne_digits p i _)
  case element.item i => exact absurd h.symm (flatMap_pieces_ne_digits q i _)

theorem flatMap_pieces_inj {p q : Path}
    (h : p.flatMap Step.pieces = q.flatMap Step.pieces) : p = q := by
  have pieces_ne_nil (step : Step) : step.pieces ≠ [] := by cases step <;> simp [Step.pieces]
  induction p generalizing q with
  | nil =>
    cases q with
    | nil => rfl
    | cons b q =>
      exact absurd (List.append_eq_nil_iff.1 h.symm).1 (pieces_ne_nil b)
  | cons a p ih =>
    cases q with
    | nil => exact absurd (List.append_eq_nil_iff.1 h).1 (pieces_ne_nil a)
    | cons b q =>
      obtain ⟨rfl, rest⟩ := step_eq_of_pieces h
      rw [ih rest]

/-- Paths without slashes in their names are told apart by their texts. -/
theorem text_inj {p q : Path} (hp : ∀ step ∈ p, step.IsPlain) (hq : ∀ step ∈ q, step.IsPlain)
    (h : p.text = q.text) : p = q := by
  have pieces := split_text hp
  rw [h, split_text hq] at pieces
  exact flatMap_pieces_inj (List.cons.inj pieces).2.symm

end Path

end StrictSchema
