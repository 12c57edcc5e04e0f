import StrictSchema.Files.Tree
import StrictSchema.Settings.Basic
import StrictSchema.Toml.Printer

/-!
# Saving settings

`Settings.document` is the text of a settings file: a table for each group with its settings in
order, and a blank line between the tables. A system prompt that is absent has no line.
-/

namespace StrictSchema.Settings

/-- The line of a setting. -/
def line (key : String) (value : List Char) : List Char :=
  key.toList ++ [' ', '=', ' '] ++ value ++ ['\n']

/-- The text of a truth value. -/
def boolChars (b : Bool) : List Char := (if b then "true" else "false").toList

/-- The lines of a settings file. -/
def documentChars (s : Settings) : List Char :=
  "[generation]\n".toList ++
    line "model" (Toml.textChars s.generation.model.toList) ++
    line "strict" (boolChars s.generation.strict) ++
    (match s.generation.systemPrompt with
      | some prompt => line "system_prompt" (Toml.textChars prompt.toList)
      | none => []) ++
    "\n[output]\n".toList ++
    line "format" (Toml.textChars s.output.format.name.toList) ++
    "\n[check]\n".toList ++
    line "extensions" (Toml.listChars (s.check.extensions.map fun e => Toml.textChars e.toList)) ++
    line "fail_fast" (boolChars s.check.failFast)

/-- The text of a settings file. -/
def document (s : Settings) : String := String.ofList (documentChars s)

/-- Writes the settings to a file. -/
def save (s : Settings) (files : FileTree) (path : String) : Except FileError FileTree :=
  files.writeText path s.document

end StrictSchema.Settings
