import StrictSchema.Proofs.Json.ReadBack

/-!
# The depth of what is read

Whatever the reader reads is nested no deeper than its limit (`Json.depth_le_of_readValue`), and a
higher limit changes nothing about what is read with a lower one (`Json.extends_readValue`). So the
text of a value that is nested deeper than the limit is not read at all (`Json.read_render_deep`),
while all others are read back (`Json.read_render`).
-/

namespace StrictSchema.Json

/-! ## Depth -/

theorem elementsDepth_le_iff {xs : List Json} {n : Nat} :
    elementsDepth xs ≤ n ↔ ∀ x ∈ xs, x.depth ≤ n := by
  induction xs with
  | nil => exact iff_of_true (Nat.zero_le n) nofun
  | cons x xs ih => rw [elementsDepth, max_le_iff, ih, List.forall_mem_cons]

theorem membersDepth_le_iff {ms : List (String × Json)} {n : Nat} :
    membersDepth ms ≤ n ↔ ∀ m ∈ ms, m.2.depth ≤ n := by
  induction ms with
  | nil => exact iff_of_true (Nat.zero_le n) nofun
  | cons m ms ih => rw [membersDepth, max_le_iff, ih, List.forall_mem_cons]

theorem depth_array (xs : List Json) : (array xs).depth = elementsDepth xs + 1 := rfl

theorem depth_object (ms : List (String × Json)) : (object ms).depth = membersDepth ms + 1 := rfl

theorem depth_lt_of_mem_array {x : Json} {xs : List Json} (h : x ∈ xs) :
    x.depth < (array xs).depth :=
  Nat.lt_succ_of_le (elementsDepth_le_iff.1 (Nat.le_refl _) x h)

theorem depth_lt_of_mem_object {m : String × Json} {ms : List (String × Json)} (h : m ∈ ms) :
    m.2.depth < (object ms).depth :=
  Nat.lt_succ_of_le (membersDepth_le_iff.1 (Nat.le_refl _) m h)

/-! ## The limit bounds what is read -/

theorem depth_le_step {limit : Nat}
    (inner : ∀ k, limit = k + 1 → Yields (readValue k) fun v => v.depth ≤ k) :
    Yields (readValue limit) fun v => v.depth ≤ limit := by
  intro cs v rest h
  rw [readValue] at h
  split at h
  case h_1 => cases h
  case h_2 | h_3 | h_4 =>
    rw [eq_of_readWord h]
    exact Nat.zero_le limit
  case h_5 | h_6 =>
    obtain ⟨_, -, h⟩ := bind_eq_ok h
    cases h
    exact Nat.zero_le limit
  case h_7 =>
    split at h
    · cases h
    · obtain ⟨⟨xs, after⟩, read, h⟩ := bind_eq_ok h
      cases h
      have each := forall_of_readElements (inner _ rfl) read
      exact Nat.succ_le_succ (elementsDepth_le_iff.2 each)
  case h_8 =>
    split at h
    · cases h
    · obtain ⟨⟨ms, after⟩, read, h⟩ := bind_eq_ok h
      cases h
      have each := forall_of_readMembers (inner _ rfl) read
      exact Nat.succ_le_succ (membersDepth_le_iff.2 fun m hm =>
        each m (Members.mem_of_mem_ofList hm))
  case h_9 =>
    split at h
    · obtain ⟨_, -, h⟩ := bind_eq_ok h
      cases h
      exact Nat.zero_le limit
    · cases h

theorem depth_le_of_readValue (limit : Nat) :
    Yields (readValue limit) fun v => v.depth ≤ limit := by
  induction limit with
  | zero => exact depth_le_step fun k hk => absurd hk (Nat.succ_ne_zero k).symm
  | succ limit ih => exact depth_le_step fun k hk => Nat.succ.inj hk ▸ ih

/-! ## A higher limit -/

/-- The second reader reads whatever the first one reads, and in the same way. -/
def Extends (value other : ValueReader) : Prop :=
  ∀ cs v rest, value cs = .ok (v, rest) → other cs = .ok (v, rest)

section Parts

variable {value other : ValueReader} (h : Extends value other)
include h

theorem Extends.moreElements {count : Nat} {cs rest : List Char} {xs : List Json}
    (read : Json.moreElements value count cs = .ok (xs, rest)) :
    Json.moreElements other count cs = .ok (xs, rest) := by
  induction count generalizing cs xs rest with
  | zero => cases read
  | succ count ih =>
    rw [Json.moreElements] at read ⊢
    obtain ⟨⟨v, afterValue⟩, first, read⟩ := bind_eq_ok read
    rw [h _ _ _ first, ok_bind]
    dsimp only at read ⊢
    generalize skipBlank afterValue = after at read ⊢
    split at read
    · cases read
    · exact read
    · rename_i after
      generalize skipBlank after = next at read ⊢
      split at read
      · cases read
      · cases read
      · obtain ⟨⟨vs, final⟩, more, read⟩ := bind_eq_ok read
        rw [ih more]
        exact read
    · cases read

theorem Extends.readElements {cs rest : List Char} {xs : List Json}
    (read : Json.readElements value cs = .ok (xs, rest)) :
    Json.readElements other cs = .ok (xs, rest) := by
  unfold Json.readElements at read ⊢
  split at read
  · cases read
  · exact read
  · exact h.moreElements read

theorem Extends.moreMembers {count : Nat} {cs rest : List Char} {ms : List (String × Json)}
    (read : Json.moreMembers value count cs = .ok (ms, rest)) :
    Json.moreMembers other count cs = .ok (ms, rest) := by
  induction count generalizing cs ms rest with
  | zero => cases read
  | succ count ih =>
    unfold Json.moreMembers at read ⊢
    split at read
    · obtain ⟨⟨name, afterName⟩, hname, read⟩ := bind_eq_ok read
      dsimp only at read ⊢
      rw [hname, ok_bind]
      dsimp only
      generalize skipBlank afterName = colon at read ⊢
      split at read
      · cases read
      · obtain ⟨⟨v, afterValue⟩, first, read⟩ := bind_eq_ok read
        dsimp only at read ⊢
        rw [h _ _ _ first, ok_bind]
        dsimp only
        generalize skipBlank afterValue = after at read ⊢
        split at read
        · cases read
        · exact read
        · rename_i after
          generalize skipBlank after = next at read ⊢
          split at read
          · cases read
          · cases read
          · obtain ⟨⟨vs, final⟩, more, read⟩ := bind_eq_ok read
            rw [ih more]
            exact read
        · cases read
      · cases read
    · cases read

theorem Extends.readMembers {cs rest : List Char} {ms : List (String × Json)}
    (read : Json.readMembers value cs = .ok (ms, rest)) :
    Json.readMembers other cs = .ok (ms, rest) := by
  unfold Json.readMembers at read ⊢
  split at read
  · cases read
  · exact read
  · exact h.moreMembers read

end Parts

theorem extends_step {limit other : Nat}
    (inner : ∀ k, limit = k + 1 → ∃ j, other = j + 1 ∧ Extends (readValue k) (readValue j)) :
    Extends (readValue limit) (readValue other) := by
  intro cs v rest read
  rw [readValue] at read ⊢
  split at read
  case h_1 => cases read
  case h_2 | h_3 | h_4 | h_5 | h_6 | h_9 => exact read
  case h_7 =>
    split at read
    · cases read
    · obtain ⟨j, rfl, higher⟩ := inner _ rfl
      obtain ⟨⟨xs, after⟩, elements, read⟩ := bind_eq_ok read
      dsimp only
      rw [higher.readElements elements]
      exact read
  case h_8 =>
    split at read
    · cases read
    · obtain ⟨j, rfl, higher⟩ := inner _ rfl
      obtain ⟨⟨ms, after⟩, members, read⟩ := bind_eq_ok read
      dsimp only
      rw [higher.readMembers members]
      exact read

theorem extends_readValue {limit other : Nat} (h : limit ≤ other) :
    Extends (readValue limit) (readValue other) := by
  induction limit generalizing other with
  | zero => exact extends_step fun k hk => absurd hk (Nat.succ_ne_zero k).symm
  | succ limit ih =>
    refine extends_step fun k hk => ?_
    obtain ⟨j, rfl⟩ := Nat.exists_eq_succ_of_ne_zero (Nat.ne_of_gt (Nat.lt_of_lt_of_le
      (Nat.succ_pos limit) h))
    exact ⟨j, rfl, Nat.succ.inj hk ▸ ih (Nat.le_of_succ_le_succ h)⟩

/-- The text of a value beyond the depth limit is refused. -/
theorem read_render_deep (format : Format) {v : Json} (deep : depthLimit < v.depth)
    (distinct : v.DistinctNames) : ∃ e, read (v.render format) = .error e := by
  cases outcome : read (v.render format) with
  | error e => exact ⟨e, rfl⟩
  | ok w =>
    unfold read render at outcome
    simp only [String.toList_ofList] at outcome
    split at outcome
    · rename_i chars
      cases outcome
      obtain ⟨⟨w, rest⟩, value, after⟩ := bind_eq_ok chars
      dsimp only at after
      split at after
      · cases after
        -- with a limit that is high enough the text is read as `v`, so it can only be `v`
        have whole := readsBack format v v.depth 0 [] (Nat.le_refl _) distinct trivial
        rw [List.append_nil, extends_readValue (Nat.le_of_lt deep) _ _ _ value] at whole
        cases whole
        exact absurd (depth_le_of_readValue depthLimit _ _ _ value) (Nat.not_le_of_lt deep)
      · cases after
    · cases outcome

end StrictSchema.Json
