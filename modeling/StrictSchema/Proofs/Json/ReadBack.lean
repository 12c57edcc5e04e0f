import StrictSchema.Proofs.Json.DistinctNames
import StrictSchema.Proofs.Json.NumberText
import StrictSchema.Proofs.Json.StringText

/-!
# The text of a value reads back

A value that is not nested too deep (`Json.depth`) and repeats no name within an object
(`Json.DistinctNames`) is read back from its text, in either format (`Json.read_render`). The
induction is on the value and, within a container, on its parts (`Json.moreElements_chars`,
`Json.moreMembers_chars`). All that a part needs of the text behind it is that it does not go on a
number (`Json.EndsNumber`), and all that the reader needs of a part is that it does not look like a
blank or the end of the container (`Json.Opens`).
-/

namespace StrictSchema.Json

/-! ## Depth -/

mutual

/-- How many containers stand one inside the other. -/
def depth : Json → Nat
  | .array xs => elementsDepth xs + 1
  | .object ms => membersDepth ms + 1
  | _ => 0
termination_by structural v => v

/-- The depth of the deepest element. -/
def elementsDepth : List Json → Nat
  | [] => 0
  | x :: xs => max x.depth (elementsDepth xs)
termination_by structural xs => xs

/-- The depth of the deepest member. -/
def membersDepth : List (String × Json) → Nat
  | [] => 0
  | (_, x) :: ms => max x.depth (membersDepth ms)
termination_by structural ms => ms

end

/-! ## Blanks -/

theorem skipBlank_append {blank : List Char} (h : ∀ c ∈ blank, c = ' ' ∨ c = '\n')
    (cs : List Char) : skipBlank (blank ++ cs) = skipBlank cs := by
  apply List.dropWhile_append_of_pos
  intro c hc
  rcases h c hc with rfl | rfl <;> rfl

theorem skipBlank_lineBreak (format : Format) (indent : Nat) (cs : List Char) :
    skipBlank (format.lineBreak indent ++ cs) = skipBlank cs := by
  apply skipBlank_append
  intro c hc
  cases format with
  | compact => cases hc
  | pretty =>
    rcases List.mem_cons.mp hc with rfl | spaces
    · exact .inr rfl
    · exact .inl (List.eq_of_mem_replicate spaces)

theorem skipBlank_cons {c : Char} (h : c ∉ [' ', '\t', '\n', '\r']) (cs : List Char) :
    skipBlank (c :: cs) = c :: cs := by
  apply List.dropWhile_cons_of_neg
  simpa [and_assoc] using h

theorem readValue_blank {blank : List Char} (h : ∀ c ∈ blank, c = ' ' ∨ c = '\n') (limit : Nat)
    (cs : List Char) : readValue limit (blank ++ cs) = readValue limit cs := by
  rw [readValue, readValue, skipBlank_append h]

/-- Whether a character can be the first of an element or a member: it is neither a blank nor a
closing bracket. -/
def Opens (c : Char) : Prop := c ∉ [' ', '\t', '\n', '\r', ']', '}']

instance (c : Char) : Decidable (Opens c) := by unfold Opens; infer_instance

theorem opens_of_isDigit {c : Char} (hc : c.isDigit) : Opens c := by
  intro h
  simp only [List.mem_cons, List.not_mem_nil, or_false] at h
  rcases h with rfl | rfl | rfl | rfl | rfl | rfl <;> exact absurd hc (by decide)

theorem skipBlank_of_opens {c : Char} (h : Opens c) (cs : List Char) :
    skipBlank (c :: cs) = c :: cs := by
  apply skipBlank_cons
  intro mem
  apply h
  simp only [List.mem_cons, List.not_mem_nil, or_false] at mem ⊢
  tauto

/-! ## Values without parts -/

section Leaf

variable (limit : Nat) {rest : List Char}

theorem readValue_digit {c : Char} (hc : c.isDigit) (cs : List Char) :
    readValue limit (c :: cs) = do
      let (n, after) ← readNumber false (c :: cs)
      return (.number n, after) := by
  rw [readValue, skipBlank_of_opens (opens_of_isDigit hc)]
  split
  case h_1 heq => cases heq
  case h_9 heq =>
    cases heq
    rw [if_pos hc]
  all_goals
    rename_i heq
    cases heq
    exact absurd hc (by decide)

theorem readValue_number (n : Number) (hr : EndsNumber rest) :
    readValue limit (n.chars ++ rest) = .ok (.number n, rest) := by
  obtain ⟨negative, written, text, ⟨c, head, digit⟩, reads⟩ := exists_readsAs n
  have read := reads rest hr
  rw [text]
  cases negative with
  | true =>
    rw [if_pos rfl, List.cons_append, readValue]
    show (readNumber true (written ++ rest) >>= fun (n, after) => return (Json.number n, after)) = _
    rw [read]
    rfl
  | false =>
    cases written with
    | nil => cases head
    | cons d ds =>
      cases head
      rw [if_neg Bool.false_ne_true, List.cons_append, readValue_digit limit digit]
      rw [List.cons_append] at read
      rw [read]
      rfl

theorem readValue_string (s : String) :
    readValue limit (stringChars s ++ rest) = .ok (.string s, rest) := by
  obtain ⟨body, text, read⟩ := stringChars_eq s rest
  rw [text, readValue]
  show (stringRest body >>= fun read => return (Json.string (String.ofList read.1), read.2)) = _
  rw [read]
  show Except.ok (Json.string (String.ofList s.toList), rest) = _
  rw [String.ofList_toList]

end Leaf

/-! ## Containers -/

/-- Every text of a value begins as a part does. -/
theorem chars_opens (format : Format) (indent : Nat) (v : Json) :
    ∃ c cs, v.chars format indent = c :: cs ∧ Opens c := by
  have enclosed (left right : Char) (parts : List (List Char)) :
      ∃ cs, enclose format indent left right parts = left :: cs := by
    cases parts <;> exact ⟨_, rfl⟩
  cases v with
  | null => exact ⟨_, _, rfl, by decide⟩
  | bool b => cases b <;> exact ⟨_, _, rfl, by decide⟩
  | number n =>
    obtain ⟨negative, written, text, ⟨c, head, digit⟩, -⟩ := exists_readsAs n
    rw [chars, text]
    cases negative with
    | true => exact ⟨_, _, rfl, by decide⟩
    | false =>
      cases written with
      | nil => cases head
      | cons d ds =>
        cases head
        exact ⟨_, _, rfl, opens_of_isDigit digit⟩
  | string s => exact ⟨_, _, rfl, by decide⟩
  | array xs =>
    obtain ⟨cs, text⟩ := enclosed '[' ']' (elementChars format (indent + 1) xs)
    exact ⟨'[', cs, text, by decide⟩
  | object ms =>
    obtain ⟨cs, text⟩ := enclosed '{' '}' (memberChars format (indent + 1) ms)
    exact ⟨'{', cs, text, by decide⟩

/-- The parts after the first, each behind its comma, and what closes the container. -/
def partsRest (format : Format) (indent : Nat) (right : Char) (parts : List (List Char))
    (rest : List Char) : List Char :=
  parts.flatMap (fun p => ',' :: format.lineBreak (indent + 1) ++ p) ++
    (format.lineBreak indent ++ right :: rest)

theorem enclose_cons (format : Format) (indent : Nat) (left right : Char) (part : List Char)
    (parts : List (List Char)) (rest : List Char) :
    enclose format indent left right (part :: parts) ++ rest =
      left :: (format.lineBreak (indent + 1) ++ (part ++
        partsRest format indent right parts rest)) := by
  simp only [enclose, partsRest, List.cons_append, List.append_assoc, List.nil_append]

theorem partsRest_cons (format : Format) (indent : Nat) (right : Char) (part : List Char)
    (parts : List (List Char)) (rest : List Char) :
    partsRest format indent right (part :: parts) rest =
      ',' :: (format.lineBreak (indent + 1) ++ (part ++
        partsRest format indent right parts rest)) := by
  simp only [partsRest, List.flatMap_cons, List.cons_append, List.append_assoc]

section Parts

variable (format : Format) (indent : Nat) {right : Char} (parts : List (List Char))
  (rest : List Char)

/-- What follows a part does not go on a number. -/
theorem endsNumber_partsRest (hr : ¬right.isDigit ∧ right ≠ '.' ∧ right ≠ 'e' ∧ right ≠ 'E') :
    EndsNumber (partsRest format indent right parts rest) := by
  cases parts with
  | nil =>
    cases format with
    | compact => exact hr
    | pretty =>
      show ¬ '\n'.isDigit ∧ _
      decide
  | cons part parts =>
    rw [partsRest_cons]
    show ¬ ','.isDigit ∧ _
    decide

theorem skipBlank_partsRest_nil (hr : right ∉ [' ', '\t', '\n', '\r']) :
    skipBlank (partsRest format indent right [] rest) = right :: rest := by
  show skipBlank (format.lineBreak indent ++ right :: rest) = _
  rw [skipBlank_lineBreak, skipBlank_cons hr]

theorem skipBlank_partsRest_cons (part : List Char) :
    skipBlank (partsRest format indent right (part :: parts) rest) =
      ',' :: (format.lineBreak (indent + 1) ++ (part ++
        partsRest format indent right parts rest)) := by
  rw [partsRest_cons, skipBlank_cons (by decide)]

theorem length_elementChars (xs : List Json) :
    (elementChars format indent xs).length = xs.length := by
  induction xs with
  | nil => rfl
  | cons x xs ih => exact congrArg Nat.succ ih

theorem length_memberChars (ms : List (String × Json)) :
    (memberChars format indent ms).length = ms.length := by
  induction ms with
  | nil => rfl
  | cons m ms ih => exact congrArg Nat.succ ih

theorem length_le_partsRest (right : Char) :
    parts.length + 1 ≤ (partsRest format indent right parts rest).length := by
  induction parts with
  | nil =>
    rw [partsRest, List.flatMap_nil, List.nil_append, List.length_append, List.length_cons]
    simp only [List.length_nil]
    omega
  | cons part parts ih =>
    rw [partsRest_cons]
    simp only [List.length_cons, List.length_append] at ih ⊢
    omega

end Parts

/-! ## Reading the parts -/

/-- Whether the text of a value is read back at any place where it is not nested too deep. -/
def ReadsBack (format : Format) (v : Json) : Prop :=
  ∀ limit indent rest, v.depth ≤ limit → v.DistinctNames → EndsNumber rest →
    readValue limit (v.chars format indent ++ rest) = .ok (v, rest)

section Steps

variable {value : ValueReader} {format : Format} {indent count : Nat} {cs rest : List Char}

theorem moreElements_last {v : Json}
    (read : value cs = .ok (v, partsRest format indent ']' [] rest)) :
    moreElements value (count + 1) cs = .ok ([v], rest) := by
  rw [moreElements, read, ok_bind]
  simp only [skipBlank_partsRest_nil format indent rest (by decide : ']' ∉ _)]
  rfl

theorem readElements_opens (format : Format) (indent : Nat) {text : List Char}
    (opens : ∃ c cs, text = c :: cs ∧ Opens c) :
    readElements value (format.lineBreak indent ++ text) = moreElements value text.length text := by
  obtain ⟨c, cs, rfl, first⟩ := opens
  rw [readElements, skipBlank_lineBreak, skipBlank_of_opens first]
  split
  · next heq => cases heq
  · next heq =>
    cases heq
    exact absurd first (by decide)
  · rfl

theorem readMembers_opens (format : Format) (indent : Nat) {text : List Char}
    (opens : ∃ c cs, text = c :: cs ∧ Opens c) :
    readMembers value (format.lineBreak indent ++ text) = moreMembers value text.length text := by
  obtain ⟨c, cs, rfl, first⟩ := opens
  rw [readMembers, skipBlank_lineBreak, skipBlank_of_opens first]
  split
  · next heq => cases heq
  · next heq =>
    cases heq
    exact absurd first (by decide)
  · rfl

/-- After an element and a comma the next one is read from where it begins. -/
theorem moreElements_cons {v : Json} {vs : List Json} {part : List Char}
    {parts : List (List Char)} (opens : ∃ c cs, part = c :: cs ∧ Opens c)
    (read : value cs = .ok (v, partsRest format indent ']' (part :: parts) rest))
    (more : moreElements value count (part ++ partsRest format indent ']' parts rest) =
      .ok (vs, rest)) :
    moreElements value (count + 1) cs = .ok (v :: vs, rest) := by
  obtain ⟨c, body, rfl, first⟩ := opens
  rw [moreElements, read, ok_bind]
  rw [List.cons_append] at more
  simp only [skipBlank_partsRest_cons, skipBlank_lineBreak, List.cons_append,
    skipBlank_of_opens first]
  split
  · next heq => cases heq
  · next heq =>
    cases heq
    exact absurd first (by decide)
  · rw [more]
    rfl

theorem moreMembers_last {name : String} {v : Json} {afterName : List Char}
    (read : value afterName = .ok (v, partsRest format indent '}' [] rest)) :
    moreMembers value (count + 1) (stringChars name ++ ':' :: afterName) =
      .ok ([(name, v)], rest) := by
  obtain ⟨body, text, string⟩ := stringChars_eq name (':' :: afterName)
  rw [text, moreMembers, string, ok_bind]
  simp only [skipBlank_cons (by decide : ':' ∉ _), read, ok_bind,
    skipBlank_partsRest_nil format indent rest (by decide : '}' ∉ _), String.ofList_toList]
  rfl

/-- After a member and a comma the next one is read from where its name begins. -/
theorem moreMembers_cons {name : String} {v : Json} {ms : List (String × Json)}
    {afterName part : List Char} {parts : List (List Char)}
    (opens : ∃ c cs, part = c :: cs ∧ Opens c)
    (read : value afterName = .ok (v, partsRest format indent '}' (part :: parts) rest))
    (more : moreMembers value count (part ++ partsRest format indent '}' parts rest) =
      .ok (ms, rest)) :
    moreMembers value (count + 1) (stringChars name ++ ':' :: afterName) =
      .ok ((name, v) :: ms, rest) := by
  obtain ⟨c, tail, rfl, first⟩ := opens
  obtain ⟨body, text, string⟩ := stringChars_eq name (':' :: afterName)
  rw [text, moreMembers, string, ok_bind]
  rw [List.cons_append] at more
  simp only [skipBlank_cons (by decide : ':' ∉ _), read, ok_bind, skipBlank_partsRest_cons,
    skipBlank_lineBreak, List.cons_append, skipBlank_of_opens first, String.ofList_toList]
  split
  · next heq => cases heq
  · next heq =>
    cases heq
    exact absurd first (by decide)
  · rw [more]
    rfl

end Steps

/-! ## Reading the containers -/

section Containers

variable {format : Format} {indent limit : Nat} {rest : List Char}

theorem moreElements_chars {x : Json} {xs : List Json} (each : ∀ y ∈ x :: xs, ReadsBack format y)
    (depth : elementsDepth (x :: xs) ≤ limit) (distinct : EachDistinct (x :: xs)) {count : Nat}
    (enough : xs.length < count) :
    moreElements (readValue limit) count (x.chars format (indent + 1) ++
        partsRest format indent ']' (elementChars format (indent + 1) xs) rest) =
      .ok (x :: xs, rest) := by
  induction xs generalizing x count with
  | nil =>
    obtain ⟨count, rfl⟩ := Nat.exists_eq_add_of_lt enough
    exact moreElements_last (each x List.mem_cons_self limit _ _ (le_trans (le_max_left _ _) depth)
      distinct.1 (endsNumber_partsRest format indent _ rest (by decide)))
  | cons y ys ih =>
    cases count with
    | zero => exact absurd enough (Nat.not_lt_zero _)
    | succ count =>
      apply moreElements_cons (chars_opens format (indent + 1) y)
      · exact each x List.mem_cons_self limit _ _ (le_trans (le_max_left _ _) depth) distinct.1
          (endsNumber_partsRest format indent _ rest (by decide))
      · exact ih (fun z hz => each z (List.mem_cons_of_mem _ hz))
          (le_trans (le_max_right _ _) depth) distinct.2 (Nat.lt_of_succ_lt_succ enough)

theorem readElements_chars (indent : Nat) (rest : List Char) {xs : List Json}
    (each : ∀ x ∈ xs, ReadsBack format x) (depth : elementsDepth xs ≤ limit)
    (distinct : EachDistinct xs) :
    ∃ body, (Json.array xs).chars format indent ++ rest = '[' :: body ∧
      readElements (readValue limit) body = .ok (xs, rest) := by
  cases xs with
  | nil => exact ⟨']' :: rest, rfl, rfl⟩
  | cons x xs =>
    have enough := length_le_partsRest format indent (elementChars format (indent + 1) xs) rest ']'
    rw [length_elementChars] at enough
    obtain ⟨c, cs, text, first⟩ := chars_opens format (indent + 1) x
    refine ⟨_, enclose_cons format indent '[' ']' (x.chars format (indent + 1))
      (elementChars format (indent + 1) xs) rest, ?_⟩
    rw [readElements_opens format _ ⟨c, _, congrArg (· ++ _) text, first⟩]
    apply moreElements_chars each depth distinct
    rw [List.length_append]
    omega

theorem readsBack_array {xs : List Json} (each : ∀ x ∈ xs, ReadsBack format x) :
    ReadsBack format (.array xs) := by
  intro limit indent rest depth distinct _
  cases limit with
  | zero => exact absurd depth (Nat.not_succ_le_zero _)
  | succ inner =>
    obtain ⟨body, text, read⟩ := readElements_chars indent rest each
      (Nat.le_of_succ_le_succ depth) distinct
    rw [text, readValue]
    show (readElements (readValue inner) body >>= fun read =>
      return (Json.array read.1, read.2)) = _
    rw [read]
    rfl

/-- What stands between a name and its value is a colon and blanks. -/
theorem exists_colon (format : Format) :
    ∃ blank, format.colon = ':' :: blank ∧ ∀ c ∈ blank, c = ' ' ∨ c = '\n' := by
  cases format with
  | compact => exact ⟨[], rfl, nofun⟩
  | pretty => exact ⟨[' '], rfl, fun c hc => .inl (List.mem_singleton.mp hc)⟩

theorem moreMembers_chars {m : String × Json} {ms : List (String × Json)}
    (each : ∀ k ∈ m :: ms, ReadsBack format k.2) (depth : membersDepth (m :: ms) ≤ limit)
    (distinct : MembersDistinct (m :: ms)) {count : Nat} (enough : ms.length < count) :
    moreMembers (readValue limit) count
        (stringChars m.1 ++ format.colon ++ m.2.chars format (indent + 1) ++
          partsRest format indent '}' (memberChars format (indent + 1) ms) rest) =
      .ok (m :: ms, rest) := by
  obtain ⟨blank, colon, blanks⟩ := exists_colon format
  simp only [colon, List.append_assoc, List.cons_append]
  cases count with
  | zero => exact absurd enough (Nat.not_lt_zero _)
  | succ count =>
    induction ms generalizing m count with
    | nil =>
      apply moreMembers_last
      rw [readValue_blank blanks]
      exact each m List.mem_cons_self limit _ _ (le_trans (le_max_left _ _) depth) distinct.1
        (endsNumber_partsRest format indent _ rest (by decide))
    | cons k ks ih =>
      have opens : ∃ c cs, stringChars k.1 ++ format.colon ++ k.2.chars format (indent + 1) =
          c :: cs ∧ Opens c := ⟨'"', _, rfl, by decide⟩
      apply moreMembers_cons opens
      · rw [readValue_blank blanks]
        exact each m List.mem_cons_self limit _ _ (le_trans (le_max_left _ _) depth) distinct.1
          (endsNumber_partsRest format indent _ rest (by decide))
      · cases count with
        | zero => exact absurd (Nat.lt_of_succ_lt_succ enough) (Nat.not_lt_zero _)
        | succ count =>
          simp only [colon, List.append_assoc, List.cons_append]
          exact ih (fun z hz => each z (List.mem_cons_of_mem _ hz))
            (le_trans (le_max_right _ _) depth) distinct.2 count (Nat.lt_of_succ_lt_succ enough)

theorem readMembers_chars (indent : Nat) (rest : List Char) {ms : List (String × Json)}
    (each : ∀ m ∈ ms, ReadsBack format m.2) (depth : membersDepth ms ≤ limit)
    (distinct : MembersDistinct ms) :
    ∃ body, (Json.object ms).chars format indent ++ rest = '{' :: body ∧
      readMembers (readValue limit) body = .ok (ms, rest) := by
  cases ms with
  | nil => exact ⟨'}' :: rest, rfl, rfl⟩
  | cons m ms =>
    have enough := length_le_partsRest format indent (memberChars format (indent + 1) ms) rest '}'
    rw [length_memberChars] at enough
    refine ⟨_, enclose_cons format indent '{' '}' (stringChars m.1 ++ format.colon ++
      m.2.chars format (indent + 1)) (memberChars format (indent + 1) ms) rest, ?_⟩
    have opens : ∃ c cs, stringChars m.1 ++ format.colon ++ m.2.chars format (indent + 1) ++
        partsRest format indent '}' (memberChars format (indent + 1) ms) rest = c :: cs ∧ Opens c :=
      ⟨'"', _, rfl, by decide⟩
    rw [readMembers_opens format _ opens]
    apply moreMembers_chars each depth distinct
    rw [List.length_append]
    omega

theorem readsBack_object {ms : List (String × Json)} (each : ∀ m ∈ ms, ReadsBack format m.2) :
    ReadsBack format (.object ms) := by
  intro limit indent rest depth distinct _
  cases limit with
  | zero => exact absurd depth (Nat.not_succ_le_zero _)
  | succ inner =>
    obtain ⟨body, text, read⟩ := readMembers_chars indent rest each
      (Nat.le_of_succ_le_succ depth) distinct.2
    rw [text, readValue]
    show (readMembers (readValue inner) body >>= fun read =>
      return (Json.object (Members.ofList read.1), read.2)) = _
    rw [read]
    show Except.ok (Json.object (Members.ofList ms), rest) = _
    rw [Members.ofList_of_nodup distinct.1]

end Containers

/-! ## Whole values -/

/-- By induction on the value: each part is read back where it stands. -/
theorem readsBack (format : Format) (v : Json) : ReadsBack format v := by
  induction v using Json.induction with
  | null =>
    intro limit _ rest _ _ _
    show readValue limit ('n' :: 'u' :: 'l' :: 'l' :: rest) = _
    rw [readValue]
    rfl
  | bool b =>
    intro limit _ rest _ _ _
    cases b with
    | true =>
      show readValue limit ('t' :: 'r' :: 'u' :: 'e' :: rest) = _
      rw [readValue]
      rfl
    | false =>
      show readValue limit ('f' :: 'a' :: 'l' :: 's' :: 'e' :: rest) = _
      rw [readValue]
      rfl
  | number n => exact fun limit _ _ _ _ ends => readValue_number limit n ends
  | string s => exact fun limit _ _ _ _ _ => readValue_string limit s
  | array xs each => exact readsBack_array each
  | object ms each => exact readsBack_object each

/-- A value within the depth limit that repeats no name is read back from its text. -/
theorem read_render (format : Format) {v : Json} (depth : v.depth ≤ depthLimit)
    (distinct : v.DistinctNames) : read (v.render format) = .ok v := by
  have value := readsBack format v depthLimit 0 [] depth distinct trivial
  rw [List.append_nil] at value
  have chars : readChars (v.chars format 0) = .ok v := by
    rw [readChars, value]
    rfl
  unfold read render
  simp only [String.toList_ofList, chars]

end StrictSchema.Json
