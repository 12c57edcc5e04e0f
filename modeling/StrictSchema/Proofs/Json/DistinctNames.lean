import Mathlib.Data.List.Nodup
import StrictSchema.Json.Reader
import StrictSchema.Proofs.Results

/-!
# Objects name each member once

A list of members built with `Members.insert` has no name twice (`Members.nodup_ofList`), and one
that has none is built from itself (`Members.ofList_of_nodup`). The reader builds every object in
that way, so what it reads repeats no name at any depth (`Json.distinctNames_of_read`), whatever the
text repeats. Facts about values are proved by induction on their parts (`Json.induction`).
-/

namespace StrictSchema

namespace Members

variable {α : Type} {name : String} {value : α} {ms : List (String × α)}

theorem insert_of_notMem (h : name ∉ names ms) : insert name value ms = ms ++ [(name, value)] := by
  induction ms with
  | nil => rfl
  | cons m ms ih =>
    obtain ⟨differs, rest⟩ := not_or.mp (List.mem_cons.not.mp h)
    rw [insert, if_neg (Ne.symm differs), ih rest]
    rfl

theorem names_insert_of_mem (h : name ∈ names ms) : names (insert name value ms) = names ms := by
  induction ms with
  | nil => cases h
  | cons m ms ih =>
    by_cases same : m.1 = name
    · rw [insert, if_pos same]
      rfl
    · have rest : name ∈ names ms := (List.mem_cons.mp h).resolve_left (Ne.symm same)
      rw [insert, if_neg same]
      exact congrArg (m.1 :: ·) (ih rest)

theorem nodup_insert (h : (names ms).Nodup) : (names (insert name value ms)).Nodup := by
  by_cases mem : name ∈ names ms
  · rwa [names_insert_of_mem mem]
  · rw [insert_of_notMem mem, names, List.map_append]
    exact h.append (List.nodup_singleton name) (List.disjoint_singleton.mpr mem)

theorem mem_insert {m : String × α} (h : m ∈ insert name value ms) :
    m ∈ ms ∨ m = (name, value) := by
  induction ms with
  | nil => exact .inr (List.mem_singleton.mp h)
  | cons k ms ih =>
    by_cases same : k.1 = name
    · rw [insert, if_pos same] at h
      rcases List.mem_cons.mp h with rfl | rest
      · exact .inr (by rw [same])
      · exact .inl (List.mem_cons_of_mem _ rest)
    · rw [insert, if_neg same] at h
      rcases List.mem_cons.mp h with rfl | rest
      · exact .inl List.mem_cons_self
      · exact (ih rest).imp_left (List.mem_cons_of_mem _)

/-- A name that comes again takes its earlier place. -/
theorem nodup_ofList (pairs : List (String × α)) : (names (ofList pairs)).Nodup := by
  unfold ofList
  suffices ∀ ms : List (String × α), (names ms).Nodup →
      (names (pairs.foldl (fun ms m => insert m.1 m.2 ms) ms)).Nodup from
    this [] List.nodup_nil
  induction pairs with
  | nil => exact fun _ h => h
  | cons m pairs ih => exact fun _ h => ih _ (nodup_insert h)

theorem mem_of_mem_ofList {m : String × α} {pairs : List (String × α)} (h : m ∈ ofList pairs) :
    m ∈ pairs := by
  unfold ofList at h
  suffices ∀ ms : List (String × α),
      m ∈ pairs.foldl (fun ms m => insert m.1 m.2 ms) ms → m ∈ ms ∨ m ∈ pairs from
    (this [] h).resolve_left (List.not_mem_nil)
  clear h
  induction pairs with
  | nil => exact fun _ h => .inl h
  | cons k pairs ih =>
    intro ms h
    rcases ih _ h with early | late
    · rcases mem_insert early with old | new
      · exact .inl old
      · exact .inr (new ▸ List.mem_cons_self)
    · exact .inr (List.mem_cons_of_mem _ late)

theorem ofList_of_nodup (h : (names ms).Nodup) : ofList ms = ms := by
  unfold ofList
  suffices ∀ before : List (String × α), (names (before ++ ms)).Nodup →
      ms.foldl (fun ms m => insert m.1 m.2 ms) before = before ++ ms from
    this [] h
  clear h
  induction ms with
  | nil => exact fun before _ => (List.append_nil before).symm
  | cons m ms ih =>
    intro before h
    have new : m.1 ∉ names before := by
      rw [names, List.map_append, List.map_cons] at h
      intro mem
      exact (List.nodup_append.mp h).2.2 m.1 mem m.1 List.mem_cons_self rfl
    have append : insert m.1 m.2 before = before ++ [m] := insert_of_notMem new
    show ms.foldl _ (insert m.1 m.2 before) = _
    rw [append, ih, List.append_assoc]
    · rfl
    · rwa [List.append_assoc]

end Members

namespace Json

/-- Induction on a value: whatever is to be shown of a container holds of its parts. -/
theorem induction {P : Json → Prop} (null : P .null) (bool : ∀ b, P (.bool b))
    (number : ∀ n, P (.number n)) (string : ∀ s, P (.string s))
    (array : ∀ vs, (∀ v ∈ vs, P v) → P (.array vs))
    (object : ∀ members, (∀ m ∈ members, P m.2) → P (.object members)) (v : Json) : P v :=
  @Json.rec P (fun vs => ∀ v ∈ vs, P v) (fun members => ∀ m ∈ members, P m.2) (fun m => P m.2)
    null bool number string array object
    nofun (fun _ _ first others => List.forall_mem_cons.2 ⟨first, others⟩)
    nofun (fun _ _ first others => List.forall_mem_cons.2 ⟨first, others⟩)
    (fun _ _ value => value) v

mutual

/-- Whether no object of the value has a name twice. -/
def DistinctNames : Json → Prop
  | .array xs => EachDistinct xs
  | .object ms => (Members.names ms).Nodup ∧ MembersDistinct ms
  | _ => True
termination_by structural v => v

/-- Whether that holds of all elements. -/
def EachDistinct : List Json → Prop
  | [] => True
  | x :: xs => x.DistinctNames ∧ EachDistinct xs
termination_by structural xs => xs

/-- Whether that holds of all members. -/
def MembersDistinct : List (String × Json) → Prop
  | [] => True
  | (_, x) :: ms => x.DistinctNames ∧ MembersDistinct ms
termination_by structural ms => ms

end

theorem eachDistinct_iff {xs : List Json} : EachDistinct xs ↔ ∀ x ∈ xs, x.DistinctNames := by
  induction xs with
  | nil => simp [EachDistinct]
  | cons x xs ih => simp [EachDistinct, ih]

theorem membersDistinct_iff {ms : List (String × Json)} :
    MembersDistinct ms ↔ ∀ m ∈ ms, m.2.DistinctNames := by
  induction ms with
  | nil => simp [MembersDistinct]
  | cons m ms ih => simp [MembersDistinct, ih]

/-! ## What the reader reads -/

/-- Whether all that a reader reads has a property. -/
def Yields (value : ValueReader) (P : Json → Prop) : Prop :=
  ∀ cs v rest, value cs = .ok (v, rest) → P v

theorem eq_of_readWord {v w : Json} {letters cs rest : List Char}
    (h : readWord v letters cs = .ok (w, rest)) : w = v := by
  induction letters generalizing cs with
  | nil =>
    cases h
    rfl
  | cons letter letters ih =>
    cases cs with
    | nil => cases h
    | cons c cs =>
      rw [readWord] at h
      split at h
      · exact ih h
      · cases h

section Parts

variable {value : ValueReader} {P : Json → Prop}

theorem forall_of_moreElements (hvalue : Yields value P) {count : Nat} {cs rest : List Char}
    {xs : List Json} (h : moreElements value count cs = .ok (xs, rest)) : ∀ x ∈ xs, P x := by
  induction count generalizing cs xs rest with
  | zero => cases h
  | succ count ih =>
    rw [moreElements] at h
    obtain ⟨⟨v, afterValue⟩, read, h⟩ := bind_eq_ok h
    have first : P v := hvalue _ _ _ read
    dsimp only at h
    split at h
    · cases h
    · cases h
      exact List.forall_mem_singleton.mpr first
    · split at h
      · cases h
      · cases h
      · obtain ⟨⟨vs, final⟩, more, h⟩ := bind_eq_ok h
        cases h
        exact List.forall_mem_cons.mpr ⟨first, ih more⟩
    · cases h

theorem forall_of_readElements (hvalue : Yields value P) {cs rest : List Char} {xs : List Json}
    (h : readElements value cs = .ok (xs, rest)) : ∀ x ∈ xs, P x := by
  unfold readElements at h
  split at h
  · cases h
  · cases h
    exact List.forall_mem_nil _
  · exact forall_of_moreElements hvalue h

theorem forall_of_moreMembers (hvalue : Yields value P) {count : Nat} {cs rest : List Char}
    {ms : List (String × Json)} (h : moreMembers value count cs = .ok (ms, rest)) :
    ∀ m ∈ ms, P m.2 := by
  induction count generalizing cs ms rest with
  | zero => cases h
  | succ count ih =>
    unfold moreMembers at h
    split at h
    · obtain ⟨⟨name, afterName⟩, -, h⟩ := bind_eq_ok h
      dsimp only at h
      split at h
      · cases h
      · obtain ⟨⟨v, afterValue⟩, read, h⟩ := bind_eq_ok h
        have first : P v := hvalue _ _ _ read
        dsimp only at h
        split at h
        · cases h
        · cases h
          exact List.forall_mem_singleton.mpr first
        · split at h
          · cases h
          · cases h
          · obtain ⟨⟨vs, final⟩, more, h⟩ := bind_eq_ok h
            cases h
            exact List.forall_mem_cons.mpr ⟨first, ih more⟩
        · cases h
      · cases h
    · cases h

theorem forall_of_readMembers (hvalue : Yields value P) {cs rest : List Char}
    {ms : List (String × Json)} (h : readMembers value cs = .ok (ms, rest)) : ∀ m ∈ ms, P m.2 := by
  unfold readMembers at h
  split at h
  · cases h
  · cases h
    exact List.forall_mem_nil _
  · exact forall_of_moreMembers hvalue h

end Parts

/-- One container more keeps the property, and so does any value without parts. -/
theorem yields_step {limit : Nat}
    (inner : ∀ k, limit = k + 1 → Yields (readValue k) DistinctNames) :
    Yields (readValue limit) DistinctNames := by
  intro cs v rest h
  rw [readValue] at h
  split at h
  case h_1 => cases h
  case h_2 | h_3 | h_4 =>
    rw [eq_of_readWord h]
    trivial
  case h_5 | h_6 =>
    obtain ⟨_, -, h⟩ := bind_eq_ok h
    cases h
    trivial
  case h_7 =>
    split at h
    · cases h
    · obtain ⟨⟨xs, after⟩, read, h⟩ := bind_eq_ok h
      cases h
      exact eachDistinct_iff.mpr (forall_of_readElements (inner _ rfl) read)
  case h_8 =>
    split at h
    · cases h
    · obtain ⟨⟨ms, after⟩, read, h⟩ := bind_eq_ok h
      cases h
      refine ⟨Members.nodup_ofList ms, membersDistinct_iff.mpr fun m hm => ?_⟩
      exact forall_of_readMembers (inner _ rfl) read m (Members.mem_of_mem_ofList hm)
  case h_9 =>
    split at h
    · obtain ⟨_, -, h⟩ := bind_eq_ok h
      cases h
      trivial
    · cases h

theorem distinctNames_of_readValue (limit : Nat) : Yields (readValue limit) DistinctNames := by
  induction limit with
  | zero => exact yields_step fun k hk => absurd hk (Nat.succ_ne_zero k).symm
  | succ limit ih => exact yields_step fun k hk => Nat.succ.inj hk ▸ ih

/-- What is read from a text names each member once. -/
theorem distinctNames_of_read {text : String} {v : Json} (h : read text = .ok v) :
    v.DistinctNames := by
  unfold read at h
  dsimp only at h
  split at h
  · rename_i read
    cases h
    obtain ⟨⟨w, rest⟩, readValue, after⟩ := bind_eq_ok read
    dsimp only at after
    split at after
    · cases after
      exact distinctNames_of_readValue _ _ _ _ readValue
    · cases after
  · cases h

end Json

end StrictSchema
