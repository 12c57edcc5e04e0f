import StrictSchema.Settings.Basic
import StrictSchema.Settings.Error

/-!
# Reading settings from a tree

`SettingTree.toSettings` reads all settings from a tree, with the default for each that is not
there. A text is read from any single value, a truth value also from numbers and from the usual
words. A group of settings is a table, or a list of their values in order. Entries that are no
settings are ignored.
-/

namespace StrictSchema

namespace SettingTree

/-- The result of reading a setting. -/
abbrev Converted (α : Type) := Except SettingsError α

variable {α : Type}

/-- The error of a value that cannot be converted. -/
def notConvertible (tree : SettingTree) (wanted : WantedSetting) : Converted α :=
  .error (.notConvertible tree.found wanted [] tree.origin?)

/-- Floating-point numbers become texts in full, whole ones without a point; a tie between two
decimals goes to the greater one. -/
def textLayout : Binary64.Layout := ⟨none, false, .up⟩

/-- The text of a single value. -/
def scalarText : Scalar → String
  | .text s => s
  | .bool b => if b then "true" else "false"
  | .integer n =>
    if n < 0 then "-" ++ String.ofList (Decimal.digitsOf n.natAbs)
    else String.ofList (Decimal.digitsOf n.natAbs)
  | .real x => String.ofList (x.text textLayout)

/-- Reads a text. -/
def toText : SettingTree → Converted String
  | .scalar _ value => .ok (scalarText value)
  | tree => tree.notConvertible .text

/-- The truth value that a word stands for. -/
def wordBool? (word : String) : Option Bool :=
  if ["1", "true", "on", "yes"].contains word then some true
  else if ["0", "false", "off", "no"].contains word then some false
  else none

/-- Reads a truth value. Words count in any case and are shown in lower case. -/
def toBool : SettingTree → Converted Bool
  | .scalar _ (.bool b) => .ok b
  | .scalar _ (.integer n) => .ok (n != 0)
  | .scalar _ (.real x) => .ok !x.isZero
  | .scalar origin (.text s) =>
    let word := Text.lowerCase s
    match wordBool? word with
    | some b => .ok b
    | none => .error (.notConvertible (.scalar (.text word)) .bool [] (some origin))
  | tree => tree.notConvertible .bool

/-- Reads each element of a list from `index` on. -/
def eachElement (read : SettingTree → Converted α) (index : Nat) :
    List SettingTree → Converted (List α)
  | [] => .ok []
  | tree :: rest => do
    let x ← (read tree).mapError (SettingsError.under (.index index))
    let xs ← eachElement read (index + 1) rest
    return x :: xs

/-- Reads a list of texts. -/
def toTexts : SettingTree → Converted (List String)
  | .list _ elements => eachElement toText 0 elements
  | tree => .error (.wrongForm tree.found .list)

/-- Reads a choice by its name, in any case; a table stands for its only key. -/
def toChoice (choice : String) (choices : List (String × α)) (tree : SettingTree) : Converted α :=
  let named (name : String) : Converted α :=
    match Members.find? (Text.lowerCase name) choices with
    | some x => .ok x
    | none => .error (.unknownChoice choice name)
  match tree with
  | .scalar _ (.text name) => named name
  | .table _ [(name, _)] => named name
  | _ => .error (.noChoice choice)

/-! ## Groups -/

/-- The settings of a group that are there, each with its place. -/
def fields (record : String) (names : List String) :
    SettingTree → Converted (List (String × KeyStep × SettingTree))
  | .table _ entries =>
    .ok (names.filterMap fun name => (Members.find? name entries).map (name, .name name, ·))
  | .list _ elements =>
    .ok ((names.zip elements).mapIdx fun index (name, tree) => (name, .index index, tree))
  | tree => .error (.wrongForm tree.found (.record record))

/-- Reads a setting of a group, or takes its default. -/
def field (found : List (String × KeyStep × SettingTree)) (name : String) (default : α)
    (read : SettingTree → Converted α) : Converted α :=
  match Members.find? name found with
  | some (step, tree) => (read tree).mapError (SettingsError.under step)
  | none => .ok default

/-- Reads a setting that may be absent. -/
def optional (read : SettingTree → Converted α) : SettingTree → Converted (Option α)
  | .absent => .ok none
  | tree => (read tree).map some

def toGeneration (tree : SettingTree) : Converted GenerationSettings := do
  let defaults : GenerationSettings := {}
  let found ← tree.fields "GenerationConfig" ["model", "strict", "system_prompt"]
  let model ← field found "model" defaults.model toText
  let strict ← field found "strict" defaults.strict toBool
  let systemPrompt ← field found "system_prompt" defaults.systemPrompt (optional toText)
  return { model, strict, systemPrompt }

def toOutput (tree : SettingTree) : Converted OutputSettings := do
  let defaults : OutputSettings := {}
  let found ← tree.fields "OutputConfig" ["format"]
  let format ← field found "format" defaults.format (toChoice "OutputFormat" Json.Format.choices)
  return { format }

def toCheck (tree : SettingTree) : Converted CheckSettings := do
  let defaults : CheckSettings := {}
  let found ← tree.fields "CheckConfig" ["extensions", "fail_fast"]
  let extensions ← field found "extensions" defaults.extensions toTexts
  let failFast ← field found "fail_fast" defaults.failFast toBool
  return { extensions, failFast }

/-- Reads all settings. -/
def toSettings (tree : SettingTree) : Converted Settings := do
  let found ← tree.fields "SchemaConfig" ["generation", "output", "check"]
  let generation ← field found "generation" {} toGeneration
  let output ← field found "output" {} toOutput
  let check ← field found "check" {} toCheck
  return { generation, output, check }

end SettingTree

end StrictSchema
