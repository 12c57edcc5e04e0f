import StrictSchema.Proofs.Toml.Texts
import StrictSchema.Toml.Reader

/-!
# TOML statements read back

Single statements are read back as they were written, whatever follows their line: values that are
texts, lists of texts or words (`value?_textChars`, `value?_listChars`, `value?_word`), keys with
these values, and headers. Lines then say one statement after the other (`Says`).
-/

namespace StrictSchema.Toml

variable {rest : List Char}

/-- A character that no line end, comment or blank starts with. -/
def IsSolid (c : Char) : Prop := c ≠ '\n' ∧ c ≠ '\r' ∧ c ≠ '#' ∧ isBlank c = false

instance : DecidablePred IsSolid := fun _ => inferInstanceAs (Decidable (_ ∧ _))

theorem skipLines?_solid {c : Char} (h : IsSolid c) (more : List Char) :
    skipLines? false (c :: more) = some (c :: more) := by
  obtain ⟨lineFeed, carriage, comment, blank⟩ := h
  rw [skipLines?.eq_def]
  simp [lineFeed, carriage, comment, blank]

theorem skipLines?_lineFeed (more : List Char) :
    skipLines? false ('\n' :: more) = skipLines? false more := by
  rw [skipLines?.eq_def]
  rfl

theorem skipLines?_space (more : List Char) :
    skipLines? false (' ' :: more) = skipLines? false more := by
  rw [skipLines?.eq_def]
  rfl

theorem skipBlank_solid {c : Char} (h : IsSolid c) (more : List Char) :
    skipBlank (c :: more) = c :: more := by
  rw [skipBlank, List.dropWhile_cons_of_neg (by simp [h.2.2.2])]

theorem textChars_eq_cons (cs : List Char) :
    ∃ quote more, textChars cs = quote :: more ∧ (quote = '"' ∨ quote = '\'') := by
  unfold textChars
  cases TextForm.of cs with
  | basic | basicLines => exact ⟨_, _, rfl, .inl rfl⟩
  | literal | literalLines => exact ⟨_, _, rfl, .inr rfl⟩

theorem isSolid_quote {c : Char} (h : c = '"' ∨ c = '\'') : IsSolid c := by
  rcases h with rfl | rfl <;> decide

theorem skipBlank_textChars (cs rest : List Char) :
    skipBlank (textChars cs ++ rest) = textChars cs ++ rest := by
  obtain ⟨quote, more, written, mark⟩ := textChars_eq_cons cs
  rw [written]
  exact skipBlank_solid (isSolid_quote mark) _

theorem skipBlank_listChars (texts : List (List Char)) (rest : List Char) :
    skipBlank (listChars texts ++ rest) = listChars texts ++ rest := by
  have solid : IsSolid '[' := by decide
  match texts with
  | [] | [_] | _ :: _ :: _ => exact skipBlank_solid solid _

/-! ## Values -/

theorem value?_textChars (depth : Nat) (cs : List Char) (after : EndsText rest) :
    value? depth (textChars cs ++ rest) = some (.text (String.ofList cs), rest) := by
  have read := quoted?_textChars cs after
  obtain ⟨quote, more, written, rfl | rfl⟩ := textChars_eq_cons cs
  all_goals
    rw [written, List.cons_append] at read ⊢
    rw [value?, read]
    rfl

section Elements

variable {read? : ValueReader} {cs first after : List Char} {v : Toml} {count : Nat}

theorem elements?_close (start : skipLines? false cs = some (']' :: rest)) :
    elements? read? (count + 1) cs = some ([], rest) := by
  rw [elements?, start]
  rfl

theorem elements?_comma (start : skipLines? false cs = some first)
    (opens : ∀ more, first ≠ ']' :: more) (found : read? first = some (v, ',' :: after)) :
    elements? read? (count + 1) cs =
      (elements? read? count after).map fun (vs, final) => (v :: vs, final) := by
  have comma := skipLines?_solid (by decide : IsSolid ',') after
  rw [elements?, start]
  simp only [Option.bind_eq_bind, Option.bind_some, found, comma]
  cases elements? read? count after <;> rfl

theorem elements?_last (start : skipLines? false cs = some first)
    (opens : ∀ more, first ≠ ']' :: more) (found : read? first = some (v, ']' :: after)) :
    elements? read? (count + 1) cs = some ([v], after) := by
  have bracket := skipLines?_solid (by decide : IsSolid ']') after
  rw [elements?, start]
  simp only [Option.bind_eq_bind, Option.bind_some, found, bracket]

end Elements

theorem skipLines?_textChars (cs rest : List Char) :
    skipLines? false (textChars cs ++ rest) = some (textChars cs ++ rest) := by
  obtain ⟨quote, more, written, mark⟩ := textChars_eq_cons cs
  rw [written]
  exact skipLines?_solid (isSolid_quote mark) _

theorem skipLines?_indented (cs rest : List Char) :
    skipLines? false ('\n' :: ' ' :: ' ' :: ' ' :: ' ' :: (textChars cs ++ rest)) =
      some (textChars cs ++ rest) := by
  simp only [skipLines?_lineFeed, skipLines?_space, skipLines?_textChars]

theorem textChars_ne_bracket (cs rest more : List Char) : textChars cs ++ rest ≠ ']' :: more := by
  obtain ⟨quote, tail, written, rfl | rfl⟩ := textChars_eq_cons cs <;> rw [written] <;> nofun

theorem endsText_cons {c : Char} (h : c ≠ '"' ∧ c ≠ '\'') (more : List Char) :
    EndsText (c :: more) :=
  ⟨fun same => h.1 (Option.some.inj same), fun same => h.2 (Option.some.inj same)⟩

/-- A text on a line of its own in a list. -/
def elementLine (cs : List Char) : List Char := [' ', ' ', ' ', ' '] ++ cs ++ [',', '\n']

theorem elements?_lines (depth : Nat) {texts : List (List Char)} {count : Nat}
    (enough : texts.length < count) :
    elements? (value? depth) count
        ('\n' :: ((texts.map textChars).flatMap elementLine ++ ']' :: rest)) =
      some (texts.map fun cs => .text (String.ofList cs), rest) := by
  induction texts generalizing count with
  | nil =>
    obtain ⟨count, rfl⟩ := Nat.exists_eq_add_one_of_ne_zero (Nat.ne_zero_of_lt enough)
    exact elements?_close (skipLines?_solid (by decide : IsSolid ']') rest)
  | cons cs texts ih =>
    obtain ⟨count, rfl⟩ := Nat.exists_eq_add_one_of_ne_zero (Nat.ne_zero_of_lt enough)
    rw [List.map_cons, List.flatMap_cons, elementLine]
    simp only [List.append_assoc, List.cons_append, List.nil_append]
    rw [elements?_comma (skipLines?_indented cs _) (textChars_ne_bracket cs _)
      (value?_textChars depth cs (endsText_cons (by decide) _)), ih (by simpa using enough)]
    rfl

theorem length_le_elementLines (texts : List (List Char)) :
    texts.length ≤ (texts.flatMap elementLine).length := by
  induction texts with
  | nil => exact Nat.le_refl 0
  | cons cs texts ih =>
    simp only [List.flatMap_cons, elementLine, List.length_append, List.length_cons]
    omega

theorem value?_bracket (depth : Nat) (cs : List Char) :
    value? (depth + 1) ('[' :: cs) =
      (elements? (value? depth) (cs.length + 1) cs).map fun (vs, rest) => (.list vs, rest) := by
  rw [value?]
  rfl

/-- A list of texts is read back as it was written. -/
theorem value?_listChars (depth : Nat) (texts : List (List Char)) (rest : List Char) :
    value? (depth + 1) (listChars (texts.map textChars) ++ rest) =
      some (.list (texts.map fun cs => .text (String.ofList cs)), rest) := by
  match texts with
  | [] =>
    refine (value?_bracket depth (']' :: rest)).trans ?_
    rw [elements?_close (skipLines?_solid (by decide : IsSolid ']') rest)]
    rfl
  | [only] =>
    rw [List.map_singleton, listChars, List.append_assoc, List.cons_append, value?_bracket,
      List.singleton_append, elements?_last (skipLines?_textChars only _)
      (textChars_ne_bracket only _) (value?_textChars depth only (endsText_cons (by decide) _))]
    rfl
  | first :: second :: more =>
    have written : listChars ((first :: second :: more).map textChars) ++ rest =
        '[' :: '\n' :: (((first :: second :: more).map textChars).flatMap elementLine ++
          ']' :: rest) := by
      simp only [List.map_cons, listChars, List.append_assoc, List.cons_append, List.nil_append]
      rfl
    have enough := length_le_elementLines ((first :: second :: more).map textChars)
    rw [List.length_map] at enough
    rw [written, value?_bracket, elements?_lines]
    · rfl
    · simp only [List.length_cons, List.length_append] at enough ⊢
      omega

theorem value?_bool (depth : Nat) (b : Bool) (rest : List Char) :
    value? depth ((if b then "true" else "false").toList ++ '\n' :: rest) =
      some (.bool b, '\n' :: rest) := by
  cases b <;> rw [value?.eq_def] <;> rfl

/-! ## Keys -/

/-- A key that needs no quotes. -/
def IsBareKey (key : String) : Prop := key.toList ≠ [] ∧ key.toList.all isKeyChar = true

instance : DecidablePred IsBareKey := fun _ => inferInstanceAs (Decidable (_ ∧ _))

theorem ne_of_isKeyChar {c d : Char} (h : isKeyChar c) (hd : isKeyChar d = false) : c ≠ d :=
  fun same => nomatch (same ▸ h).symm.trans hd

section Keys

variable {key : String} {c : Char} {after : List Char}

theorem IsBareKey.word (h : IsBareKey key) : ∀ c ∈ key.toList, isKeyChar c :=
  List.all_eq_true.1 h.2

theorem IsBareKey.exists_cons (h : IsBareKey key) :
    ∃ first more, key.toList = first :: more ∧ isKeyChar first := by
  obtain ⟨first, more, written⟩ := List.exists_cons_of_ne_nil h.1
  exact ⟨first, more, written, h.word first (written ▸ List.mem_cons_self)⟩

theorem key?_bare (h : IsBareKey key) (ends : isKeyChar c = false) (after : List Char) :
    key? (key.toList ++ c :: after) = some (key, c :: after) := by
  obtain ⟨first, more, written, start⟩ := h.exists_cons
  have name : (key.toList ++ c :: after).takeWhile isKeyChar = key.toList := by
    rw [List.takeWhile_append_of_pos h.word, List.takeWhile_cons_of_neg (by simp [ends]),
      List.append_nil]
  have left : (key.toList ++ c :: after).dropWhile isKeyChar = c :: after := by
    rw [List.dropWhile_append_of_pos h.word, List.dropWhile_cons_of_neg (by simp [ends])]
  rw [key?]
  · simp only [name, left, String.ofList_toList]
    rw [if_neg (by simpa using h.1)]
  · exact fun _ same => ne_of_isKeyChar start rfl (List.cons.inj (written ▸ same)).1
  · exact fun _ same => ne_of_isKeyChar start rfl (List.cons.inj (written ▸ same)).1

theorem isSolid_of_isKeyChar (h : isKeyChar c) : IsSolid c := by
  refine ⟨ne_of_isKeyChar h rfl, ne_of_isKeyChar h rfl, ne_of_isKeyChar h rfl, ?_⟩
  simp [isBlank, ne_of_isKeyChar h (rfl : isKeyChar ' ' = false),
    ne_of_isKeyChar h (rfl : isKeyChar '\t' = false)]

theorem skipBlank_bare (h : IsBareKey key) (after : List Char) :
    skipBlank (key.toList ++ after) = key.toList ++ after := by
  obtain ⟨first, more, written, start⟩ := h.exists_cons
  rw [written]
  exact skipBlank_solid (isSolid_of_isKeyChar start) _

theorem keyPath?_bare (h : IsBareKey key) (ends : isKeyChar c = false)
    (single : ∀ more, skipBlank (c :: after) ≠ '.' :: more) :
    keyPath? (key.toList ++ c :: after) = some ([], key, skipBlank (c :: after)) := by
  rw [keyPath?, depthLimit, moreKeys?, skipBlank_bare h, key?_bare h ends]
  simp only [Option.bind_eq_bind, Option.bind_some]
  rfl

/-! ## Lines -/

theorem statement?_header (h : IsBareKey key) (rest : List Char) :
    statement? ('[' :: (key.toList ++ ']' :: rest)) = some (.table [] key, rest) := by
  obtain ⟨first, more, written, start⟩ := h.exists_cons
  have bracket := skipBlank_solid (by decide : IsSolid ']') rest
  rw [statement?, keyPath?_bare h rfl (by rw [bracket]; nofun), bracket]
  · rfl
  · exact fun _ same => ne_of_isKeyChar start rfl (List.cons.inj (written ▸ same)).1

/-- The equals sign after a key. -/
theorem skipBlank_equals (after : List Char) : skipBlank (' ' :: '=' :: after) = '=' :: after := rfl

theorem statement?_pair (h : IsBareKey key) {value rest : List Char} {v : Toml}
    (start : skipBlank (value ++ rest) = value ++ rest)
    (found : value? depthLimit (value ++ rest) = some (v, rest)) :
    statement? (key.toList ++ ' ' :: '=' :: ' ' :: (value ++ rest)) =
      some (.pair [] key v, rest) := by
  obtain ⟨first, more, written, begins⟩ := h.exists_cons
  have path : keyPath? (key.toList ++ ' ' :: '=' :: ' ' :: (value ++ rest)) =
      some ([], key, '=' :: ' ' :: (value ++ rest)) :=
    keyPath?_bare h rfl (by rw [skipBlank_equals]; nofun)
  have blank : skipBlank (' ' :: (value ++ rest)) = value ++ rest := start
  rw [statement?, pair?, path]
  · simp only [Option.bind_eq_bind, Option.bind_some, blank, found]
  · exact fun _ same => ne_of_isKeyChar begins rfl (List.cons.inj (written ▸ same)).1
  · exact fun _ same => ne_of_isKeyChar begins rfl (List.cons.inj (written ▸ same)).1

end Keys

/-! ## Documents -/

/-- The text says the statements, and nothing else. -/
structure Says (cs : List Char) (statements : List Statement) : Prop where
  enough : statements.length ≤ cs.length
  read : ∀ count, statements.length < count → statements? count cs = some statements

theorem says_nil : Says [] [] :=
  ⟨Nat.le_refl 0, fun count enough => by
    obtain ⟨count, rfl⟩ := Nat.exists_eq_add_one_of_ne_zero (Nat.ne_zero_of_lt enough)
    rfl⟩

section Says

variable {s : Statement} {ss : List Statement} {key : String} {c : Char} {body : List Char}

theorem Says.lineFeed (h : Says rest ss) : Says ('\n' :: rest) ss := by
  refine ⟨Nat.le_succ_of_le h.enough, fun count enough => ?_⟩
  obtain ⟨count, rfl⟩ := Nat.exists_eq_add_one_of_ne_zero (Nat.ne_zero_of_lt enough)
  have read := h.read _ enough
  rw [statements?] at read ⊢
  rwa [skipLines?_lineFeed]

theorem Says.cons (h : Says rest ss) (solid : IsSolid c)
    (found : statement? (c :: (body ++ '\n' :: rest)) = some (s, '\n' :: rest)) :
    Says (c :: (body ++ '\n' :: rest)) (s :: ss) := by
  constructor
  · have := h.enough
    simp only [List.length_cons, List.length_append]
    omega
  · intro count enough
    obtain ⟨count, rfl⟩ := Nat.exists_eq_add_one_of_ne_zero (Nat.ne_zero_of_lt enough)
    have finished : finishLine? ('\n' :: rest) = some rest := rfl
    rw [statements?, skipLines?_solid solid]
    simp only [Option.bind_eq_bind, Option.bind_some, found, finished,
      h.read count (Nat.lt_of_succ_lt_succ enough), Option.map_some]

theorem Says.header (h : Says rest ss) (bare : IsBareKey key) :
    Says ('[' :: (key.toList ++ ']' :: '\n' :: rest)) (.table [] key :: ss) := by
  have found : statement? ('[' :: (key.toList ++ [']'] ++ '\n' :: rest)) =
      some (.table [] key, '\n' :: rest) := by
    rw [List.append_assoc]
    exact statement?_header bare _
  have said := h.cons (by decide : IsSolid '[') found
  rwa [List.append_assoc] at said

theorem Says.pair (h : Says rest ss) (bare : IsBareKey key) {value : List Char} {v : Toml}
    (start : skipBlank (value ++ '\n' :: rest) = value ++ '\n' :: rest)
    (found : value? depthLimit (value ++ '\n' :: rest) = some (v, '\n' :: rest)) :
    Says (key.toList ++ ' ' :: '=' :: ' ' :: (value ++ '\n' :: rest)) (.pair [] key v :: ss) := by
  obtain ⟨first, more, written, begins⟩ := bare.exists_cons
  have whole : key.toList ++ ' ' :: '=' :: ' ' :: (value ++ '\n' :: rest) =
      first :: ((more ++ ' ' :: '=' :: ' ' :: value) ++ '\n' :: rest) := by
    rw [written]
    simp only [List.cons_append, List.append_assoc]
  have read := statement?_pair bare start found
  rw [whole] at read ⊢
  exact h.cons (isSolid_of_isKeyChar begins) read

end Says

/-- A document that opens with a header is read by carrying out its statements. -/
theorem Says.read?_eq {cs : List Char} {ss : List Statement} (h : Says ('[' :: cs) ss) :
    read? (String.ofList ('[' :: cs)) = (entriesOf? [] [] ss).map Node.entriesToToml := by
  rw [read?, String.toList_ofList]
  change (statements? (('[' :: cs).length + 1) ('[' :: cs)).bind _ = _
  rw [h.read _ (Nat.lt_succ_of_le h.enough), Option.bind_some]
  cases entriesOf? [] [] ss <;> rfl

end StrictSchema.Toml
