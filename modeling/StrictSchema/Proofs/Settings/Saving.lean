import StrictSchema.Proofs.Files.Writing
import StrictSchema.Proofs.Settings.Document
import StrictSchema.Proofs.Settings.Loading

/-!
# Saved settings

As a source, a settings file gives each setting the value that it was written for, except that it
does not give an absent system prompt (`Settings.given_document`). So settings that were saved are
loaded as they were, and only an absent system prompt lets other files through.
-/

namespace StrictSchema

/-! ## Written settings -/

namespace Setting

variable {α : Type}

/-- What is written for the value of a setting. -/
def toToml? : Setting α → α → Option Toml
  | model, text => some (.text text)
  | strict, b => some (.bool b)
  | systemPrompt, prompt => prompt.map .text
  | format, f => some (.text f.name)
  | extensions, texts => some (.list (texts.map .text))
  | failFast, b => some (.bool b)

theorem isFormat_name (f : Json.Format) : Toml.IsFormat (.text f.name) f := by
  cases f with
  | pretty => exact .pretty (.text _) (by decide +kernel)
  | compact => exact .compact (.text _) (by decide +kernel)

theorem isTexts_map_text (texts : List String) : Toml.IsTexts (.list (texts.map .text)) texts := by
  refine .list (List.forall₂_map_left_iff.2 (List.forall₂_same.2 fun text _ => ?_))
  exact .written (.text text)

/-- What is written for a value stands for it. -/
theorem means_of_toToml? {x : Setting α} {value : α} {v : Toml}
    (written : x.toToml? value = some v) : x.Means v value := by
  cases x with
  | model => cases written; exact .written (.text value)
  | strict | failFast => cases written; exact .bool value
  | systemPrompt =>
    obtain ⟨text, rfl, rfl⟩ := Option.map_eq_some_iff.1 written
    exact ⟨text, .written (.text text), rfl⟩
  | format => cases written; exact isFormat_name value
  | extensions => cases written; exact isTexts_map_text value

/-- The entry of a setting in the table of its group. -/
def entry (x : Setting α) (s : Settings) : List (String × Toml) :=
  ((x.toToml? (x.get s)).map (x.name, ·)).toList

end Setting

namespace Settings

/-- The tables of a settings file. -/
def tables (s : Settings) : List (String × Toml) := [
  ("generation", .table (Setting.model.entry s ++ Setting.strict.entry s ++
    Setting.systemPrompt.entry s)),
  ("output", .table (Setting.format.entry s)),
  ("check", .table (Setting.extensions.entry s ++ Setting.failFast.entry s))]

theorem read?_document_eq_tables (s : Settings) : Toml.read? s.document = some s.tables := by
  rw [read?_document]
  obtain ⟨⟨model, strict, prompt⟩, ⟨format⟩, ⟨extensions, failFast⟩⟩ := s
  cases prompt <;> rfl

/-! ## A settings file as a source -/

section Source

variable {α : Type}

theorem named_append (name : String) (before after : List (String × Toml)) :
    Toml.named name (.table (before ++ after)) =
      Toml.named name (.table before) ++ Toml.named name (.table after) :=
  List.filterMap_append

theorem named_entry (name : String) (x : Setting α) (s : Settings) :
    Toml.named name (.table (x.entry s)) =
      if x.name = name then (x.toToml? (x.get s)).toList else [] := by
  rw [Toml.named, Toml.entries, Setting.entry]
  cases x.toToml? (x.get s) with
  | none => exact (ite_self []).symm
  | some v =>
    rcases eq_or_ne x.name name with rfl | other
    · simp [x.lowerCase_name]
    · simp [x.lowerCase_name, other]

theorem not_isPathTo {group name key : String} (plain : '.' ∉ key.toList) :
    ¬ KeyPath.IsPathTo group name key := by
  rintro ⟨parts, cut, -⟩
  rw [Text.cut_of_notMem plain] at cut
  cases cut

/-- A settings file gives each setting what was written for it. -/
theorem given_document (x : Setting α) (s : Settings) (origin : Origin) :
    (Source.document origin s.document).given x.group x.name = (x.toToml? (x.get s)).toList := by
  have generation : Text.lowerCase "generation" = "generation" := Setting.model.lowerCase_group
  have output : Text.lowerCase "output" = "output" := Setting.format.lowerCase_group
  have check : Text.lowerCase "check" = "check" := Setting.failFast.lowerCase_group
  rw [Source.given, read?_document_eq_tables, Option.getD_some, tables]
  cases x <;>
    simp [Setting.group, Setting.name, generation, output, check, named_append, named_entry,
      not_isPathTo]

/-- A settings file is a valid source. -/
theorem isValid_document (s : Settings) (origin : Origin) :
    (Source.document origin s.document).IsValid := by
  have found : (Source.document origin s.document).entries? =
      some (s.tables.map fun e => (KeyPath.ofKey e.1, e.2)) := by
    rw [Source.entries?, read?_document_eq_tables, Option.map_some]
  have group {β : Type} (e : String × Toml) (table : e.2.isTable) (x : Setting β)
      (named : e.1 = x.group) : Source.IsPlain (KeyPath.ofKey e.1) e.2 := by
    rw [named, x.ofKey_eq_group_iff.2 x.lowerCase_group]
    exact fun _ => table
  refine ⟨⟨_, found, ?_⟩, fun x v mem => ?_, fun _ _ x => ?_⟩
  · refine List.forall_mem_map.2 (List.forall_mem_cons.2 ⟨?_, List.forall_mem_cons.2 ⟨?_,
      List.forall_mem_singleton.2 ?_⟩⟩)
    · exact group _ rfl .model rfl
    · exact group _ rfl .format rfl
    · exact group _ rfl .failFast rfl
  · rw [given_document] at mem
    exact ⟨_, Setting.means_of_toToml? (Option.mem_toList.1 mem)⟩
  · rw [given_document]
    cases x.toToml? (x.get s) <;> simp

end Source

/-! ## Loading what was saved -/

theorem ext_get {s t : Settings} (same : ∀ {α : Type} (x : Setting α), x.get s = x.get t) :
    s = t := by
  obtain ⟨⟨model, strict, prompt⟩, ⟨format⟩, ⟨extensions, failFast⟩⟩ := s
  obtain rfl := same .model
  obtain rfl := same .strict
  obtain rfl := same .systemPrompt
  obtain rfl := same .format
  obtain rfl := same .extensions
  obtain rfl := same .failFast
  rfl

/-- The settings with another system prompt. -/
def withPrompt (s : Settings) (prompt : Option String) : Settings :=
  { s with generation := { s.generation with systemPrompt := prompt } }

theorem at?_save {s : Settings} {files files' : FileTree} {path : String}
    (extension : FilePath.extension? path = some "toml")
    (saved : s.save files path = .ok files') :
    ∃ origin, Source.at? files' path = some (.document origin s.document) := by
  refine ⟨.file (FilePath.relativeTo files'.workingPath path), ?_⟩
  simp [Source.at?, FileTree.isFile_writeText saved, extension, FileTree.readText_writeText saved,
    Except.toOption]

section Load

variable {s : Settings} {world : World} {path : String} {files : FileTree} {origin : Origin}

theorem given_environment_of_unset {α : Type} (x : Setting α)
    (unset : ∀ v ∈ world.environment, ¬ IsMarked v.1) :
    (Source.environment world.environment).given x.group x.name = [] :=
  List.filterMap_eq_nil_iff.2 fun v mem => if_neg fun named =>
    nomatch (keyOfVariable?_eq_none (unset v mem)).symm.trans
      ((keyOfVariable?_eq_setting_iff x).2 named)

theorem isValid_environment_of_unset (unset : ∀ v ∈ world.environment, ¬ IsMarked v.1) :
    (Source.environment world.environment).IsValid := by
  refine Source.isValid_environment_iff.2 fun v mem => ?_
  have none := keyOfVariable?_eq_none (unset v mem)
  exact ⟨fun _ found => (nomatch none.symm.trans found),
    fun x named => nomatch none.symm.trans ((keyOfVariable?_eq_setting_iff x).2 named)⟩

/-- The sources where a file that was saved is asked for. -/
theorem sources_of_saved (found : Source.at? files path = some (.document origin s.document)) :
    sources { world with files } (some path) =
      unaskedSources { world with files } ++ [.document origin s.document] ++
        [.environment world.environment] := by
  simp only [sources, Option.toList_some, List.filterMap_cons, found, List.filterMap_nil]

theorem hasValidSources_of_saved
    (found : Source.at? files path = some (.document origin s.document))
    (unset : ∀ v ∈ world.environment, ¬ IsMarked v.1)
    (unasked : ∀ source ∈ unaskedSources { world with files }, source.IsValid) :
    HasValidSources { world with files } (some path) := by
  refine ⟨fun p here => ?_, ?_⟩
  · obtain rfl := Option.some.inj here
    rw [found]
    rfl
  · rw [sources_of_saved found]
    exact List.forall_mem_append.2 ⟨List.forall_mem_append.2
      ⟨unasked, List.forall_mem_singleton.2 (isValid_document s origin)⟩,
      List.forall_mem_singleton.2 (isValid_environment_of_unset unset)⟩

/-- What was written for a setting is given after what the files that are read unasked give. -/
theorem given_of_saved (found : Source.at? files path = some (.document origin s.document))
    (unset : ∀ v ∈ world.environment, ¬ IsMarked v.1) {α : Type} (x : Setting α) :
    (sources { world with files } (some path)).flatMap (Source.given x.group x.name) =
      (unaskedSources { world with files }).flatMap (Source.given x.group x.name) ++
        (x.toToml? (x.get s)).toList := by
  simp [sources_of_saved found, List.flatMap_append, given_document,
    given_environment_of_unset x unset]

/-- Settings that were saved are loaded as they were, whatever other files give, except for a system
prompt, which other files may give if it is absent. -/
theorem load_save (extension : FilePath.extension? path = some "toml")
    (saved : s.save world.files path = .ok files)
    (unset : ∀ v ∈ world.environment, ¬ IsMarked v.1)
    (others : ∀ source ∈ unaskedSources { world with files },
      (∀ origin, source ≠ .document origin s.document) → source.IsValid) :
    ∃ prompt, Setting.systemPrompt.IsDecided (unaskedSources { world with files }) prompt ∧
      load { world with files } (some path) =
        .ok (s.withPrompt (s.generation.systemPrompt.or prompt)) := by
  obtain ⟨origin, found⟩ := at?_save extension saved
  have unasked (source) (mem : source ∈ unaskedSources { world with files }) : source.IsValid := by
    by_cases same : ∃ origin, source = .document origin s.document
    · obtain ⟨origin, rfl⟩ := same
      exact isValid_document s origin
    · exact others source mem (not_exists.1 same)
  obtain ⟨t, loaded, values⟩ := exists_load (hasValidSources_of_saved found unset unasked)
  have given {α : Type} (x : Setting α) := given_of_saved found unset x
  have written {α : Type} (x : Setting α) {v : Toml} (h : x.toToml? (x.get s) = some v) :
      x.get t = x.get s := by
    refine ((values x).means ?_).unique (Setting.means_of_toToml? h)
    rw [given, h, Option.toList_some, List.getLast?_concat]
  refine ⟨_, isDecided_value unasked .systemPrompt,
    loaded.trans (congrArg Except.ok (ext_get fun x => ?_))⟩
  cases x with
  | model => exact written .model rfl
  | strict => exact written .strict rfl
  | format => exact written .format rfl
  | extensions => exact written .extensions rfl
  | failFast => exact written .failFast rfl
  | systemPrompt =>
    show t.generation.systemPrompt = s.generation.systemPrompt.or _
    cases prompt : s.generation.systemPrompt with
    | some text =>
      have given : Setting.systemPrompt.toToml? (Setting.systemPrompt.get s) = some (.text text) :=
        congrArg (Option.map _) prompt
      rw [Option.some_or]
      exact (written .systemPrompt given).trans prompt
    | none =>
      have silent : Setting.systemPrompt.toToml? (Setting.systemPrompt.get s) = none :=
        congrArg (Option.map _) prompt
      rw [Option.none_or]
      refine (values .systemPrompt).unique (isDecided_value unasked .systemPrompt) ?_
      rw [given, silent, Option.toList_none, List.append_nil]

end Load

/-- Settings with a text that needs escapes and no system prompt. -/
def unusualSettings : Settings :=
  { generation := { model := "a\"\\\n\x07" }
    check := { extensions := ["'", "b"], failFast := true } }

/-- A working directory with one file that is read unasked, and a home directory with the file of
the user. -/
def promptWorld : World where
  files := {
    root := .directory [
      ("w", .directory [("narrative-schemas.toml", .file (.text "[check]\nfail_fast = false"))]),
      ("h", .directory [(".config", .directory [("narrative-schemas", .directory [
        ("narrative-schemas.toml", .file (.text "[generation]\nsystem_prompt = 'Go.'"))])])])]
    working := ["w"] }
  environment := [("HOME", "/h")]

/-- Of what the other files give, only the system prompt is let through. -/
theorem load_save_unusualSettings :
    ∃ files, unusualSettings.save promptWorld.files "m.toml" = .ok files ∧
      load { promptWorld with files } (some "m.toml") =
        .ok (unusualSettings.withPrompt (some "Go.")) := by
  have writable : (unusualSettings.save promptWorld.files "m.toml").isOk := by decide +kernel
  let files := (unusualSettings.save promptWorld.files "m.toml").toOption.getD promptWorld.files
  have saved : unusualSettings.save promptWorld.files "m.toml" = .ok files := by
    cases result : unusualSettings.save promptWorld.files "m.toml" with
    | error e => rw [result] at writable; cases writable
    | ok written => simp only [files, result, Except.toOption, Option.getD_some]
  have computed : (∀ source ∈ unaskedSources { promptWorld with files }, source.IsValid) ∧
      Setting.systemPrompt.IsDecided (unaskedSources { promptWorld with files }) (some "Go.") := by
    decide +kernel
  obtain ⟨prompt, decided, loaded⟩ :=
    load_save (by decide +kernel) saved (by decide +kernel) fun source mem _ =>
      computed.1 source mem
  rw [decided.unique computed.2 rfl] at loaded
  exact ⟨files, saved, loaded⟩

end Settings

end StrictSchema
