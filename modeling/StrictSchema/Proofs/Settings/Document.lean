import StrictSchema.Proofs.Toml.Statements
import StrictSchema.Settings.Save

/-!
# Settings files read back

A settings file says one statement for each of its lines that is not blank
(`Settings.says_document`), whatever characters its texts hold. Carried out, these make a table for
each group with its settings in order (`Settings.read?_document`).
-/

namespace StrictSchema.Settings

open Toml

/-! ## Lines -/

section Lines

variable {rest : List Char} {ss : List Statement} {key : String}

theorem says_line (h : Says rest ss) (bare : IsBareKey key) {value : List Char} {v : Toml}
    (start : skipBlank (value ++ '\n' :: rest) = value ++ '\n' :: rest)
    (found : value? depthLimit (value ++ '\n' :: rest) = some (v, '\n' :: rest)) :
    Says (line key value ++ rest) (.pair [] key v :: ss) := by
  have said := h.pair bare start found
  simpa [line] using said

theorem says_text (h : Says rest ss) (bare : IsBareKey key) (text : String) :
    Says (line key (textChars text.toList) ++ rest) (.pair [] key (.text text) :: ss) := by
  have found := value?_textChars depthLimit text.toList
    (endsText_cons (by decide : '\n' ≠ '"' ∧ '\n' ≠ '\'') rest)
  rw [String.ofList_toList] at found
  exact says_line h bare (skipBlank_textChars _ _) found

theorem says_bool (h : Says rest ss) (bare : IsBareKey key) (b : Bool) :
    Says (line key (boolChars b) ++ rest) (.pair [] key (.bool b) :: ss) := by
  refine says_line h bare ?_ (value?_bool depthLimit b rest)
  cases b <;> rfl

theorem says_list (h : Says rest ss) (bare : IsBareKey key) (texts : List String) :
    Says (line key (listChars (texts.map fun e => textChars e.toList)) ++ rest)
      (.pair [] key (.list (texts.map .text)) :: ss) := by
  have found := value?_listChars 78 (texts.map String.toList) ('\n' :: rest)
  simp only [List.map_map, Function.comp_def, String.ofList_toList] at found
  exact says_line h bare (skipBlank_listChars _ _) found

/-- The header of a group, after `blanks` blank lines. -/
theorem says_header (h : Says rest ss) (bare : IsBareKey key) {blanks : Nat} {text : List Char}
    (written : text = List.replicate blanks '\n' ++ '[' :: (key.toList ++ [']', '\n'])) :
    Says (text ++ rest) (.table [] key :: ss) := by
  subst written
  have header := h.header bare
  induction blanks with
  | zero =>
    simpa only [List.replicate_zero, List.cons_append, List.append_assoc, List.nil_append]
      using header
  | succ blanks ih => exact ih.lineFeed

end Lines

/-- The statements of a settings file, one for each line that is not blank. -/
def statements (s : Settings) : List Statement :=
  [.table [] "generation", .pair [] "model" (.text s.generation.model),
    .pair [] "strict" (.bool s.generation.strict)] ++
  (s.generation.systemPrompt.map fun prompt => .pair [] "system_prompt" (.text prompt)).toList ++
  [.table [] "output", .pair [] "format" (.text s.output.format.name),
    .table [] "check", .pair [] "extensions" (.list (s.check.extensions.map .text)),
    .pair [] "fail_fast" (.bool s.check.failFast)]

/-- A settings file says its statements. -/
theorem says_document (s : Settings) : Says (documentChars s) (statements s) := by
  have check : Says ("\n[check]\n".toList ++ _) _ :=
    says_header (says_list (says_bool says_nil (by decide : IsBareKey "fail_fast") s.check.failFast)
      (by decide : IsBareKey "extensions") s.check.extensions)
      (by decide : IsBareKey "check") (by decide : _ = List.replicate 1 '\n' ++ _)
  rw [List.append_nil] at check
  have output : Says ("\n[output]\n".toList ++ _) _ :=
    says_header (says_text check (by decide : IsBareKey "format") s.output.format.name)
      (by decide : IsBareKey "output") (by decide : _ = List.replicate 1 '\n' ++ _)
  have generation {rest : List Char} {ss : List Statement} (h : Says rest ss) :
      Says ("[generation]\n".toList ++ _) _ :=
    says_header (says_text (says_bool h (by decide : IsBareKey "strict") s.generation.strict)
      (by decide : IsBareKey "model") s.generation.model)
      (by decide : IsBareKey "generation") (by decide : _ = List.replicate 0 '\n' ++ _)
  unfold documentChars statements
  simp only [List.append_assoc]
  cases s.generation.systemPrompt with
  | none => exact generation output
  | some prompt =>
    exact generation (says_text output (by decide : IsBareKey "system_prompt") prompt)

theorem entriesOf?_statements (s : Settings) :
    (entriesOf? [] [] (statements s)).map Node.entriesToToml = some [
      ("generation", .table ([("model", .text s.generation.model),
        ("strict", .bool s.generation.strict)] ++
        (s.generation.systemPrompt.map fun prompt => ("system_prompt", .text prompt)).toList)),
      ("output", .table [("format", .text s.output.format.name)]),
      ("check", .table [("extensions", .list (s.check.extensions.map .text)),
        ("fail_fast", .bool s.check.failFast)])] := by
  obtain ⟨⟨model, strict, prompt⟩, output, check⟩ := s
  cases prompt <;> rfl

/-- A settings file is read as a table for each group. -/
theorem read?_document (s : Settings) :
    Toml.read? s.document = some [
      ("generation", .table ([("model", .text s.generation.model),
        ("strict", .bool s.generation.strict)] ++
        (s.generation.systemPrompt.map fun prompt => ("system_prompt", .text prompt)).toList)),
      ("output", .table [("format", .text s.output.format.name)]),
      ("check", .table [("extensions", .list (s.check.extensions.map .text)),
        ("fail_fast", .bool s.check.failFast)])] := by
  have opens : ∃ cs, documentChars s = '[' :: cs := by
    unfold documentChars
    simp only [List.append_assoc]
    exact ⟨_, rfl⟩
  obtain ⟨cs, written⟩ := opens
  have said := says_document s
  rw [written] at said
  rw [document, written, said.read?_eq, entriesOf?_statements]

end StrictSchema.Settings
