import Mathlib.Tactic.Common
import StrictSchema.Text.LowerCase

/-!
# Texts in lower case

Characters before the capital letters stay as they are (`Text.lowerChar_of_lt`). No capital letter
of the basic alphabet is left in a text in lower case (`Text.not_isCapital_of_mem_lowerCase`), and a
text of basic characters without one is its own lower-case form (`Text.lowerCase_eq_self`).
-/

namespace StrictSchema.Text

/-- A capital letter of the basic alphabet. -/
def IsCapital (c : Char) : Prop := 65 ≤ c.toNat ∧ c.toNat ≤ 90

instance : DecidablePred IsCapital := fun _ => inferInstanceAs (Decidable (_ ∧ _))

/-! ## Characters -/

/-- A character is its own lower-case form, or a run of `lowerRuns` has it and says the form. -/
theorem lowerChar_eq_or (c : Char) :
    lowerChar c = c ∨ ∃ run ∈ lowerRuns, run.1 ≤ c.toNat ∧ c.toNat ≤ run.2.1 ∧
      lowerChar c = Char.ofNat (c.toNat + run.2.2.2).toNat := by
  unfold lowerChar
  split
  · next first last step distance found =>
    have within := List.find?_some found
    simp only [Bool.and_eq_true, decide_eq_true_eq] at within
    exact .inr ⟨_, List.mem_of_find?_eq_some found, within.1.1, within.1.2, rfl⟩
  · exact .inl rfl

theorem toNat_ofNat_eq_or (n : Nat) : (Char.ofNat n).toNat = n ∨ (Char.ofNat n).toNat = 0 := by
  by_cases valid : n.isValidChar
  · rw [Char.ofNat, dif_pos valid]
    exact .inl rfl
  · rw [Char.ofNat, dif_neg valid]
    exact .inr rfl

theorem lowerChar_of_lt {c : Char} (before : c.toNat < 65) : lowerChar c = c := by
  have later : ∀ run ∈ lowerRuns, 65 ≤ run.1 := by decide +kernel
  rcases lowerChar_eq_or c with same | ⟨run, mem, above, -⟩
  · exact same
  · have := later run mem
    omega

/-- Basic characters change only if they are capital letters. -/
theorem lowerChar_of_not_isCapital {c : Char} (basic : c.toNat < 128) (small : ¬ IsCapital c) :
    lowerChar c = c := by
  have apart : ∀ run ∈ lowerRuns, (65 ≤ run.1 ∧ run.2.1 ≤ 90) ∨ 128 ≤ run.1 := by decide +kernel
  rcases lowerChar_eq_or c with same | ⟨run, mem, above, below, -⟩
  · exact same
  · rcases apart run mem with within | later
    · exact absurd ⟨by omega, by omega⟩ small
    · omega

theorem not_isCapital_lowerChar (c : Char) : ¬ IsCapital (lowerChar c) := by
  by_cases capital : IsCapital c
  · have changed : ∀ n < 91, 65 ≤ n → ¬ IsCapital (lowerChar (Char.ofNat n)) := by decide +kernel
    have := changed c.toNat (by have := capital.2; omega) capital.1
    rwa [Char.ofNat_toNat] at this
  · have far : ∀ run ∈ lowerRuns, 90 < (run.1 : Int) + run.2.2.2 := by decide +kernel
    rcases lowerChar_eq_or c with same | ⟨run, mem, above, -, form⟩
    · rwa [same]
    · rintro ⟨low, high⟩
      have := far run mem
      rw [form] at low high
      rcases toNat_ofNat_eq_or (c.toNat + run.2.2.2).toNat with same | zero <;> omega

/-! ## Texts -/

/-- A basic character is put in lower case by itself. -/
theorem lowerAfter_cons {c : Char} (basic : c.toNat < 128) (before rest : List Char) :
    lowerAfter before (c :: rest) = lowerChar c :: lowerAfter (c :: before) rest := by
  have sigma : c ≠ 'Σ' := by
    rintro rfl
    exact absurd basic (by decide)
  have dotted : c ≠ 'İ' := by
    rintro rfl
    exact absurd basic (by decide)
  rw [lowerAfter, if_neg sigma, if_neg dotted]
  rfl

/-- Basic characters are put in lower case one by one. -/
theorem lowerAfter_eq_map {cs : List Char} (basic : ∀ c ∈ cs, c.toNat < 128)
    (before : List Char) : lowerAfter before cs = cs.map lowerChar := by
  induction cs generalizing before with
  | nil => rfl
  | cons c cs ih =>
    obtain ⟨first, rest⟩ := List.forall_mem_cons.1 basic
    rw [lowerAfter_cons first, ih rest, List.map_cons]

theorem lowerCase_eq_self {cs : List Char} (basic : ∀ c ∈ cs, c.toNat < 128)
    (small : ∀ c ∈ cs, ¬ IsCapital c) : lowerCase (String.ofList cs) = String.ofList cs := by
  have same : cs.map lowerChar = cs.map id :=
    List.map_congr_left fun c mem => lowerChar_of_not_isCapital (basic c mem) (small c mem)
  rw [lowerCase, String.toList_ofList, lowerAfter_eq_map basic, same, List.map_id]

/-- A text that starts before the capital letters starts in the same way in lower case. -/
theorem head?_lowerCase {c : Char} (before : c.toNat < 65) (cs : List Char) :
    (lowerCase (String.ofList (c :: cs))).toList.head? = some c := by
  rw [lowerCase, String.toList_ofList, String.toList_ofList, lowerAfter_cons (by omega),
    lowerChar_of_lt before, List.head?_cons]

/-- A basic character that is no capital letter stays in lower case. -/
theorem mem_lowerAfter_of_mem {c : Char} (basic : c.toNat < 128) (small : ¬ IsCapital c)
    {cs : List Char} (mem : c ∈ cs) (before : List Char) : c ∈ lowerAfter before cs := by
  induction cs generalizing before with
  | nil => cases mem
  | cons d cs ih =>
    rcases List.mem_cons.1 mem with rfl | later
    · rw [lowerAfter_cons basic, lowerChar_of_not_isCapital basic small]
      exact List.mem_cons_self
    · rw [lowerAfter]
      exact List.mem_append_right _ (ih later _)

theorem mem_lowerCase {s : String} {c : Char} (mem : c ∈ s.toList) (basic : c.toNat < 128)
    (small : ¬ IsCapital c) : c ∈ (lowerCase s).toList := by
  rw [lowerCase, String.toList_ofList]
  exact mem_lowerAfter_of_mem basic small mem []

theorem not_isCapital_of_mem_lowerAfter {c : Char} {before cs : List Char}
    (mem : c ∈ lowerAfter before cs) : ¬ IsCapital c := by
  induction cs generalizing before with
  | nil => cases mem
  | cons d cs ih =>
    rw [lowerAfter] at mem
    rcases List.mem_append.1 mem with here | later
    · by_cases special : c = 'ς' ∨ c = 'σ' ∨ c = 'i' ∨ c = '\u0307'
      · rcases special with rfl | rfl | rfl | rfl <;> decide
      · have single : c = lowerChar d := by grind
        exact single ▸ not_isCapital_lowerChar d
    · exact ih later

/-- No capital letter is left in lower case. -/
theorem not_isCapital_of_mem_lowerCase {s : String} {c : Char} (mem : c ∈ (lowerCase s).toList) :
    ¬ IsCapital c := by
  rw [lowerCase, String.toList_ofList] at mem
  exact not_isCapital_of_mem_lowerAfter mem

end StrictSchema.Text
