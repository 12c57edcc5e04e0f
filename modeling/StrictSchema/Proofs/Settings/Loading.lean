import StrictSchema.Proofs.Settings.Sources

/-!
# The source that counts

The sources of settings are the documents at five places, in order, and after them the environment
(`Settings.sources`). If they are valid, settings are always loaded, and each of them has the value
that the last source says, or its default (`Settings.exists_load`). So no source touches a setting
that it does not give.
-/

namespace StrictSchema

/-! ## The sources in order -/

/-- The document that a path stands for: the file there, if it has the known extension, or the file
with a further extension where there is none. -/
def Source.at? (files : FileTree) (path : String) : Option Source :=
  let place := if files.isFile path then path else FilePath.addExtension path "toml"
  if files.isFile path ∧ FilePath.extension? path ≠ some "toml" then none
  else (files.readText place).toOption.map
    (.document (.file (FilePath.relativeTo files.workingPath place)))

namespace Settings

variable {world : World} {asked : Option String}

/-- The place of the file of the user: in the directory for settings, if its path is absolute, or
else in the hidden one of the home directory. -/
def userPlaces (environment : List (String × String)) : List String :=
  let settings := (Members.find? "XDG_CONFIG_HOME" environment).toList.filter FilePath.isAbsolute
  let home := (Members.find? "HOME" environment).toList.filter (· ≠ "")
  ((settings ++ home.map (FilePath.join · ".config")).take 1).map
    (FilePath.join · "narrative-schemas/narrative-schemas.toml")

/-- The sources that are read unasked, from the one that counts least on. -/
def unaskedSources (world : World) : List Source :=
  (["narrative-schemas.toml", ".narrative-schemas.toml", "config/narrative-schemas.toml"] ++
    (userPlaces world.environment).filter world.files.isThere).filterMap (Source.at? world.files)

/-- All sources, from the one that counts least on: after those that are read unasked, the file that
was asked for, and the environment. -/
def sources (world : World) (asked : Option String) : List Source :=
  unaskedSources world ++ asked.toList.filterMap (Source.at? world.files) ++
    [.environment world.environment]

/-- What is asked for is there, and all sources are valid. -/
structure HasValidSources (world : World) (asked : Option String) : Prop where
  found : ∀ path ∈ asked, (Source.at? world.files path).isSome
  valid : ∀ source ∈ sources world asked, source.IsValid

/-! ## Where files are read -/

theorem exists_readText_eq_error {files : FileTree} {path : String}
    (missing : files.isFile path = false) : ∃ e, files.readText path = .error e := by
  unfold FileTree.isFile at missing
  unfold FileTree.readText
  cases found : files.find path with
  | error e => exact ⟨e, rfl⟩
  | ok entry =>
    rw [found] at missing
    cases entry with
    | file content => cases missing
    | directory entries => exact ⟨_, rfl⟩

/-- Reading the file that a path asks for gives the document that the path stands for. -/
theorem readFile_cases (files : FileTree) (path : String) :
    (∃ origin text, readFile files path = .ok (origin, text) ∧
        Source.at? files path = some (.document origin text)) ∨
      ∃ e, readFile files path = .error e ∧ Source.at? files path = none := by
  have located {place : String} (h : locate files path = .ok place)
      (h' : Source.at? files path = (files.readText place).toOption.map
        (.document (.file (FilePath.relativeTo files.workingPath place)))) :
      (∃ origin text, readFile files path = .ok (origin, text) ∧
          Source.at? files path = some (.document origin text)) ∨
        ∃ e, readFile files path = .error e ∧ Source.at? files path = none := by
    rw [readFile, h, h', ok_bind]
    cases files.readText place with
    | error e => exact .inr ⟨_, rfl, rfl⟩
    | ok text => exact .inl ⟨_, text, rfl, rfl⟩
  have refused {e : SettingsError} (h : locate files path = .error e) :
      readFile files path = .error e := by
    rw [readFile, h]
    rfl
  by_cases there : files.isFile path
  · by_cases known : FilePath.extension? path = some "toml"
    · exact located (by rw [locate, if_pos there, if_pos known])
        (by simp [Source.at?, there, known])
    · exact .inr ⟨_, refused (by rw [locate, if_pos there, if_neg known]),
        by simp [Source.at?, there, known]⟩
  · have document : Source.at? files path =
        (files.readText (FilePath.addExtension path "toml")).toOption.map
          (.document (.file (FilePath.relativeTo files.workingPath
            (FilePath.addExtension path "toml")))) := by
      simp [Source.at?, there]
    by_cases further : files.isFile (FilePath.addExtension path "toml")
    · exact located (by rw [locate, if_neg there, if_pos further]) document
    · obtain ⟨e, read⟩ := exists_readText_eq_error (Bool.not_eq_true _ ▸ further)
      refine .inr ⟨_, refused (by rw [locate, if_neg there, if_neg further]), ?_⟩
      rw [document, read]
      rfl

theorem toList_userPlace? (environment : List (String × String)) :
    (userPlace? environment).toList = userPlaces environment := by
  have empty : FilePath.isAbsolute "" = false := by decide
  dsimp only [userPlace?, userPlaces]
  generalize Members.find? "XDG_CONFIG_HOME" environment = settings
  generalize Members.find? "HOME" environment = home
  have hidden : (home.filter fun value => !value.isEmpty).toList =
      home.toList.filter (· ≠ "") := by
    rw [Option.toList_filter]
    refine congrArg (List.filter · _) (funext fun value => ?_)
    rw [Bool.eq_iff_iff]
    simp
  have absolute :
      ((settings.filter fun value => !value.isEmpty).filter FilePath.isAbsolute).toList =
        settings.toList.filter FilePath.isAbsolute := by
    rw [Option.toList_filter, Option.toList_filter, List.filter_filter]
    refine congrArg (List.filter · _) (funext fun value => ?_)
    by_cases h : value = "" <;> simp [h, empty]
  rw [← hidden, ← absolute]
  cases (settings.filter fun value => !value.isEmpty).filter FilePath.isAbsolute with
  | none => cases home.filter fun value => !value.isEmpty <;> rfl
  | some directory => rfl

theorem filterMap_unaskedPlaces (world : World) :
    (unaskedPlaces world).filterMap (Source.at? world.files) = unaskedSources world := by
  rw [unaskedPlaces, unaskedSources, ← toList_userPlace?, Option.toList_filter]
  rfl

/-! ## The tree of all layers -/

theorem addText_of_valid {origin : Origin} {text : String}
    (valid : (Source.document origin text).IsValid) (tree : SettingTree) :
    addText tree origin text = .ok ((Source.document origin text).layer.apply tree) := by
  obtain ⟨entries, found, -⟩ := valid.plain
  obtain ⟨all, read, -⟩ := Option.map_eq_some_iff.1 found
  rw [addText, Source.layer, Source.entries?, read, Layer.apply]
  simp only [Option.map_some, Option.getD_some, List.foldl_map]
  rfl

theorem addUnasked_foldlM {files : FileTree} {places : List String}
    (valid : ∀ source ∈ places.filterMap (Source.at? files), source.IsValid)
    (tree : SettingTree) :
    places.foldlM (addUnasked files) tree =
      .ok (((places.filterMap (Source.at? files)).map Source.layer).foldl Layer.apply tree) := by
  induction places generalizing tree with
  | nil => rfl
  | cons place places ih =>
    rw [List.filterMap_cons] at valid ⊢
    rw [List.foldlM_cons, addUnasked]
    rcases readFile_cases files place with ⟨origin, text, read, found⟩ | ⟨e, read, found⟩
    · rw [found] at valid ⊢
      rw [read]
      obtain ⟨first, rest⟩ := List.forall_mem_cons.1 valid
      simp only [addText_of_valid first tree]
      exact ih rest _
    · rw [found] at valid ⊢
      rw [read]
      exact ih valid tree

/-- A file that can be read counts the same whether it was asked for or not. -/
theorem addFile_eq_addUnasked {files : FileTree} {path : String}
    (found : (Source.at? files path).isSome) (tree : SettingTree) :
    addFile files tree path = addUnasked files tree path := by
  rw [addFile, addUnasked]
  rcases readFile_cases files path with ⟨origin, text, read, -⟩ | ⟨e, -, missing⟩
  · rw [read]
    rfl
  · rw [missing] at found
    cases found

theorem addVariables_eq (tree : SettingTree) (environment : List (String × String)) :
    addVariables tree environment = (Source.environment environment).layer.apply tree := by
  rw [Layer.apply, Source.layer_environment, List.foldl_filterMap]
  refine congrArg (fun step => environment.foldl step tree) ?_
  funext tree ⟨name, text⟩
  dsimp only
  cases keyOfVariable? name <;> rfl

/-- If what was asked for can be read, all files are put over each other in the same way. -/
theorem layers_eq (found : ∀ path ∈ asked, (Source.at? world.files path).isSome) :
    layers world asked =
      ((unaskedPlaces world ++ asked.toList).foldlM (addUnasked world.files) (.table none [])).map
        (Source.environment world.environment).layer.apply := by
  rw [layers, List.foldlM_append]
  cases (unaskedPlaces world).foldlM (addUnasked world.files) (.table none []) with
  | error => rfl
  | ok tree =>
    cases asked with
    | none => exact congrArg Except.ok (addVariables_eq _ _)
    | some path =>
      have same := addFile_eq_addUnasked (found path rfl) tree
      simp only [pure, bind, Except.bind, same, addVariables_eq]
      cases added : addUnasked world.files tree path <;>
        simp [added, Except.map, bind, Except.bind, pure, Except.pure]

/-- Valid sources are put over each other in order. -/
theorem layers_of_valid (valid : HasValidSources world asked) :
    layers world asked =
      .ok (((sources world asked).map Source.layer).foldl Layer.apply (.table none [])) := by
  have files : (unaskedPlaces world ++ asked.toList).filterMap (Source.at? world.files) =
      unaskedSources world ++ asked.toList.filterMap (Source.at? world.files) := by
    rw [List.filterMap_append, filterMap_unaskedPlaces]
  have valids : ∀ source ∈ (unaskedPlaces world ++ asked.toList).filterMap (Source.at? world.files),
      source.IsValid := fun source mem => valid.valid source (List.mem_append_left _ (files ▸ mem))
  rw [layers_eq valid.found, addUnasked_foldlM valids, files]
  simp only [sources, List.map_append, List.foldl_append]
  rfl

/-! ## The value of each setting -/

/-- The first source that gives something gives a tree of what it gives. -/
theorem findSome?_ofToml (group name : String) (all : List Source) :
    (all.findSome? (fun source => (source.given group name).getLast?) = none ∧
        all.findSome? (fun source =>
          (source.given group name).getLast?.map (SettingTree.ofToml source.origin)) = none) ∨
      ∃ source ∈ all, ∃ v ∈ source.given group name,
        all.findSome? (fun source => (source.given group name).getLast?) = some v ∧
        all.findSome? (fun source =>
            (source.given group name).getLast?.map (SettingTree.ofToml source.origin)) =
          some (SettingTree.ofToml source.origin v) := by
  induction all with
  | nil => exact .inl ⟨rfl, rfl⟩
  | cons source all ih =>
    simp only [List.findSome?_cons]
    cases last : (source.given group name).getLast? with
    | some v =>
      exact .inr ⟨source, List.mem_cons_self, v, List.mem_of_getLast? last, rfl, rfl⟩
    | none =>
      refine ih.imp id ?_
      rintro ⟨source, mem, given⟩
      exact ⟨source, List.mem_cons_of_mem _ mem, given⟩

/-- Over the layers of valid sources, the last value that is given decides. -/
theorem isDecided_value {all : List Source} (valid : ∀ source ∈ all, source.IsValid) {α : Type}
    (x : Setting α) :
    x.IsDecided all
      (x.value ((all.map Source.layer).reverse.findSome? (Layer.gives? x.group x.name))) := by
  have gives : (all.map Source.layer).reverse.findSome? (Layer.gives? x.group x.name) =
      all.reverse.findSome? fun source =>
        (source.given x.group x.name).getLast?.map (SettingTree.ofToml source.origin) := by
    rw [← List.map_reverse, List.findSome?_map]
    exact congrArg (List.findSome? · _) (funext fun source => source.gives?_layer x)
  rw [Setting.IsDecided, gives, List.getLast?_flatMap]
  rcases findSome?_ofToml x.group x.name all.reverse with
    ⟨none, none'⟩ | ⟨source, mem, v, given, last, last'⟩
  · rw [none, none']
    rfl
  · rw [last, last']
    obtain ⟨value, means⟩ := (valid source (List.mem_reverse.1 mem)).admitted x v given
    have read : x.value (some (SettingTree.ofToml source.origin v)) = value := by
      rw [Setting.value, Option.bind_some, means.read_eq_ok]
      rfl
    exact read ▸ means

/-- Settings with valid sources are loaded, and each has the value that the last source says. -/
theorem exists_load (valid : HasValidSources world asked) :
    ∃ s, load world asked = .ok s ∧
      ∀ {α : Type} (x : Setting α), x.IsDecided (sources world asked) (x.get s) := by
  have valids : ∀ layer ∈ (sources world asked).map Source.layer, layer.IsValid :=
    List.forall_mem_map.2 fun source mem => (valid.valid source mem).layer
  have empty : SettingTree.IsReadable (.table none []) := ⟨⟨_, _, rfl⟩, nofun, nofun⟩
  have shown {α : Type} (x : Setting α) := Layer.foldl_apply_shows valids empty x
  obtain ⟨s, read, values⟩ := (shown .model).1.exists_toSettings
  refine ⟨s, ?_, fun x => ?_⟩
  · rw [load, layers_of_valid valid]
    exact read
  · have value := isDecided_value valid.valid x
    rw [values, (shown x).2]
    rwa [← Option.or_none (o := List.findSome? _ _)] at value

/-- The last source that gives a setting has its way, whatever other sources give for it and for
other settings. Exchanging sources for others changes nothing that none of them gives. -/
theorem load_last_source (valid : HasValidSources world asked) :
    ∃ s, load world asked = .ok s ∧
      (∀ {α : Type} (x : Setting α), x.IsDecided (sources world asked) (x.get s)) ∧
      ∀ (other : World) (otherAsked : Option String) (before old new after : List Source),
        HasValidSources other otherAsked → sources world asked = before ++ old ++ after →
        sources other otherAsked = before ++ new ++ after →
        ∃ t, load other otherAsked = .ok t ∧ ∀ {α : Type} (x : Setting α),
          (∀ source ∈ old ++ new, source.given x.group x.name = []) → x.get t = x.get s := by
  obtain ⟨s, loaded, values⟩ := exists_load valid
  refine ⟨s, loaded, values, fun other otherAsked before old new after valid' split split' => ?_⟩
  obtain ⟨t, loaded', values'⟩ := exists_load valid'
  refine ⟨t, loaded', fun x silent => (values' x).unique (values x) ?_⟩
  obtain ⟨quiet, quiet'⟩ := List.forall_mem_append.1 silent
  simp only [split, split', List.flatMap_append, List.flatMap_eq_nil_iff.2 quiet,
    List.flatMap_eq_nil_iff.2 quiet']

/-- A working directory with two files that are read unasked and one that may be asked for, and a
home directory with the file of the user. -/
def layeredWorld : World where
  files := {
    root := .directory [
      ("w", .directory [
        ("narrative-schemas.toml", .file (.text "[check]\nextensions = ['a', 'b']\nfail_fast = 1")),
        (".narrative-schemas.toml", .file (.text
          "generation.system_prompt = 2024-05-01\n[Check]\nextensions = ['c']")),
        ("mine.toml", .file (.text "[output]\nformat = 'compact'"))]),
      ("h", .directory [(".config", .directory [("narrative-schemas", .directory [
        ("narrative-schemas.toml", .file (.text "[generation]\nmodel = 'm'"))])])])]
    working := ["w"] }
  environment := [("HOME", "/h"), ("NARRATIVE_SCHEMAS__CHECK__FAIL_FAST", "no")]

/-- The second file replaces the list of the first one whole and gives a date as the prompt, the
file of the user gives the model, and the environment has the last word. The file that is asked for
only changes the format. -/
theorem load_last_source_layeredWorld :
    ∃ s t, load layeredWorld (some "mine.toml") = .ok s ∧ load layeredWorld none = .ok t ∧
      s.generation = ⟨"m", true, some "2024-05-01"⟩ ∧ s.check = ⟨["c"], false⟩ ∧
      t.generation.model = s.generation.model := by
  let mine : Source := .document (.file "mine.toml") "[output]\nformat = 'compact'"
  let all := unaskedSources layeredWorld ++ [mine] ++ [.environment layeredWorld.environment]
  have found : Source.at? layeredWorld.files "mine.toml" = some mine := by decide +kernel
  have split : sources layeredWorld (some "mine.toml") = all := by
    simp only [sources, Option.toList_some, List.filterMap_cons, found, List.filterMap_nil, all]
  have computed : (∀ source ∈ all, source.IsValid) ∧ Setting.model.IsDecided all "m" ∧
      Setting.strict.IsDecided all true ∧ Setting.systemPrompt.IsDecided all (some "2024-05-01") ∧
      Setting.extensions.IsDecided all ["c"] ∧ Setting.failFast.IsDecided all false ∧
      mine.given "generation" "model" = [] := by
    decide +kernel
  obtain ⟨valids, model, strict, prompt, extensions, failFast, silent⟩ := computed
  have valid : HasValidSources layeredWorld (some "mine.toml") := by
    refine ⟨fun path here => ?_, split ▸ valids⟩
    obtain rfl := Option.some.inj here
    rw [found]
    rfl
  have validUnasked : HasValidSources layeredWorld none := by
    refine ⟨nofun, fun source mem => valids source ?_⟩
    rcases List.mem_append.1 mem with file | environment
    · rw [Option.toList_none, List.filterMap_nil, List.append_nil] at file
      exact List.mem_append_left _ (List.mem_append_left _ file)
    · exact List.mem_append_right _ environment
  obtain ⟨s, loaded, values, exchange⟩ := load_last_source valid
  obtain ⟨t, loaded', same⟩ := exchange layeredWorld none (unaskedSources layeredWorld) [mine] []
    [.environment layeredWorld.environment] validUnasked split
    (by simp only [sources, Option.toList_none, List.filterMap_nil])
  have value {α : Type} (x : Setting α) {value : α} (decided : x.IsDecided all value) :
      x.get s = value :=
    (values x).unique decided (congrArg (List.flatMap _) split)
  refine ⟨s, t, loaded, loaded', ?_, ?_, same .model (List.forall_mem_singleton.2 silent)⟩
  · exact congr (congr (congrArg GenerationSettings.mk (value .model model))
      (value .strict strict)) (value .systemPrompt prompt)
  · exact congr (congrArg CheckSettings.mk (value .extensions extensions))
      (value .failFast failFast)

end Settings

end StrictSchema
