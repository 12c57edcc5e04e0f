import StrictSchema.Proofs.Settings.Saving
import StrictSchema.Proofs.Settings.Spellings

/-!
# Text settings in the environment

The text of a variable for a text setting decides what value the setting has and nothing else: with
another text the same settings are loaded except for this one, or loading fails in the same way
(`TextSetting.load_world`). The setting gets the text that arrives (`Scalar.arrival`), which is not
always the text of the variable, whereas a text in a file is loaded as it is.
-/

namespace StrictSchema

open SettingTree

/-! ## Values exchanged in a tree -/

namespace SettingTree

variable {tree : SettingTree} {group name : String}

theorem putEntry_putEntry_self (tree : SettingTree) (key : String) (value next : SettingTree) :
    (tree.putEntry key value).putEntry key next = tree.putEntry key next := by
  cases tree with
  | table origin entries =>
    exact congrArg (table origin) (Members.insert_insert_self key value next entries)
  | absent | scalar | list =>
    exact congrArg (table none) (Members.insert_insert_self key value next [])

theorem putEntry_comm {key other : String} (differ : key ≠ other)
    (there : (Members.find? key tree.entries).isSome) (value next : SettingTree) :
    (tree.putEntry key value).putEntry other next =
      (tree.putEntry other next).putEntry key value := by
  cases tree with
  | table origin entries =>
    exact congrArg (table origin) (Members.insert_comm differ there value next)
  | absent | scalar | list => cases there

/-- The tree with a single value from the environment at the place of a setting. -/
def withVariable (group name : String) (value : Scalar) (tree : SettingTree) : SettingTree :=
  Assignment.apply tree ⟨[.name group, .name name], .scalar .environment value⟩

theorem withVariable_eq (group name : String) (value : Scalar) (tree : SettingTree) :
    tree.withVariable group name value =
      tree.putEntry group (((Members.find? group tree.entries).getD .absent).putEntry name
        (.scalar .environment value)) := rfl

theorem at?_withVariable (group name : String) (value : Scalar) (tree : SettingTree) :
    (tree.withVariable group name value).at? group name = some (.scalar .environment value) :=
  Assignment.at?_apply_names_self tree group name [] _

theorem withVariable_withVariable (group name : String) (value next : Scalar)
    (tree : SettingTree) :
    (tree.withVariable group name value).withVariable group name next =
      tree.withVariable group name next := by
  rw [withVariable_eq, withVariable_eq group name value, find?_putEntry_self,
    putEntry_putEntry_self, Option.getD_some, putEntry_putEntry_self, withVariable_eq]

end SettingTree

namespace Assignment

variable {a : Assignment} {tree : SettingTree} {group name : String}

/-- The place is neither that of the setting or within it, nor does it take away the table in which
the setting is. -/
def Spares (group name : String) : KeyPath → Prop
  | .name g :: .name n :: _ => ¬ (g = group ∧ n = name)
  | .name g :: _ => g ≠ group
  | _ => False

instance (group name : String) : DecidablePred (Spares group name) := fun
  | [] => inferInstanceAs (Decidable False)
  | .index _ :: _ => inferInstanceAs (Decidable False)
  | [.name _] => inferInstanceAs (Decidable (¬ _))
  | .name _ :: .name _ :: _ => inferInstanceAs (Decidable (¬ _))
  | .name _ :: .index _ :: _ => inferInstanceAs (Decidable (¬ _))

theorem isSome_find?_of_at? (there : (tree.at? group name).isSome) :
    (Members.find? group tree.entries).isSome := by
  obtain ⟨t, found⟩ := Option.isSome_iff_exists.1 there
  obtain ⟨g, hg, -⟩ := Option.bind_eq_some_iff.1 found
  exact Option.isSome_iff_exists.2 ⟨g, hg⟩

theorem apply_withVariable_of_ne {key : String} (h : key ≠ group)
    (there : (tree.at? group name).isSome) (rest : KeyPath) (given : SettingTree)
    (value : Scalar) :
    apply (tree.withVariable group name value) ⟨.name key :: rest, given⟩ =
      (apply tree ⟨.name key :: rest, given⟩).withVariable group name value := by
  rw [withVariable_eq, withVariable_eq, apply_name, apply_name, find?_putEntry_of_ne h.symm,
    find?_putEntry_of_ne h, putEntry_comm h.symm (isSome_find?_of_at? there)]

theorem apply_names (tree : SettingTree) (group key : String) (rest : KeyPath)
    (given : SettingTree) :
    apply tree ⟨.name group :: .name key :: rest, given⟩ =
      tree.putEntry group (((Members.find? group tree.entries).getD .absent).putEntry key
        (assign given rest (Members.find? key
          ((Members.find? group tree.entries).getD .absent).entries))) := rfl

theorem apply_withVariable_of_name_ne {key : String} (h : key ≠ name)
    (there : (tree.at? group name).isSome) (rest : KeyPath) (given : SettingTree)
    (value : Scalar) :
    apply (tree.withVariable group name value) ⟨.name group :: .name key :: rest, given⟩ =
      (apply tree ⟨.name group :: .name key :: rest, given⟩).withVariable group name value := by
  rw [at?_eq] at there
  rw [withVariable_eq, withVariable_eq, apply_names, apply_names, find?_putEntry_self,
    find?_putEntry_self, Option.getD_some, Option.getD_some, putEntry_putEntry_self,
    putEntry_putEntry_self, find?_putEntry_of_ne h.symm, putEntry_comm h.symm there]

/-- An assignment to another place leaves the setting alone, whatever value it has. -/
theorem apply_withVariable (spares : Spares group name a.place)
    (there : (tree.at? group name).isSome) (value : Scalar) :
    apply (tree.withVariable group name value) a =
        (apply tree a).withVariable group name value ∧
      (apply tree a).at? group name = tree.at? group name := by
  obtain ⟨_ | ⟨key | _, rest⟩, given⟩ := a
  · cases spares
  · by_cases same : key = group
    · subst same
      rcases rest with _ | ⟨inner | _, rest⟩
      · exact absurd rfl spares
      · have differ : inner ≠ name := fun named => spares ⟨rfl, named⟩
        exact ⟨apply_withVariable_of_name_ne differ there rest given value,
          at?_apply_names_of_ne differ tree key rest given⟩
      · exact absurd rfl spares
    · exact ⟨apply_withVariable_of_ne same there rest given value,
        at?_apply_of_ne same tree rest given name⟩
  · cases spares

end Assignment

/-- A layer of assignments to other places leaves the setting alone, whatever value it has. -/
theorem Layer.apply_withVariable {layer : Layer} {tree : SettingTree} {group name : String}
    (spares : ∀ a ∈ layer, Assignment.Spares group name a.place)
    (there : (tree.at? group name).isSome) (value : Scalar) :
    Layer.apply (tree.withVariable group name value) layer =
        (Layer.apply tree layer).withVariable group name value ∧
      (Layer.apply tree layer).at? group name = tree.at? group name := by
  induction layer generalizing tree with
  | nil => exact ⟨rfl, rfl⟩
  | cons a layer ih =>
    obtain ⟨first, others⟩ := List.forall_mem_cons.1 spares
    obtain ⟨exchanged, kept⟩ := Assignment.apply_withVariable first there value
    obtain ⟨exchanged', kept'⟩ := ih others (kept ▸ there)
    exact ⟨(congrArg (Layer.apply · layer) exchanged).trans exchanged', kept'.trans kept⟩

/-! ## Text settings -/

/-- The settings whose value is a text. -/
inductive TextSetting where
  | model
  | systemPrompt
deriving DecidableEq

namespace TextSetting

/-- The name of the setting in its group, which is `generation`. -/
def name : TextSetting → String
  | model => "model"
  | systemPrompt => "system_prompt"

/-- The variable that gives the setting. -/
def variableName : TextSetting → String
  | model => "NARRATIVE_SCHEMAS__GENERATION__MODEL"
  | systemPrompt => "NARRATIVE_SCHEMAS__GENERATION__SYSTEM_PROMPT"

/-- The text of the setting, if it has one. -/
def text? : TextSetting → Settings → Option String
  | model, s => some s.generation.model
  | systemPrompt, s => s.generation.systemPrompt

/-- The generation settings with a text put into the setting. -/
def putText : TextSetting → String → GenerationSettings → GenerationSettings
  | model, text, g => { g with model := text }
  | systemPrompt, text, g => { g with systemPrompt := some text }

/-- The settings with a text put into the setting. -/
def put (x : TextSetting) (text : String) (s : Settings) : Settings :=
  { s with generation := x.putText text s.generation }

theorem text?_put (x : TextSetting) (text : String) (s : Settings) :
    x.text? (x.put text s) = some text := by
  cases x <;> rfl

/-- The variable gives the setting at its place. -/
theorem keyOfVariable?_variableName (x : TextSetting) :
    keyOfVariable? x.variableName = some [.name "generation", .name x.name] := by
  cases x <;> decide +kernel

end TextSetting

/-! ## Reading with another value -/

namespace SettingTree

variable {α : Type}

/-- The field of a table with the given entries. -/
def entryField (entries : List (String × SettingTree)) (name : String) (default : α)
    (read : SettingTree → Converted α) : Converted α :=
  match Members.find? name entries with
  | some t => (read t).mapError (SettingsError.under (.name name))
  | none => .ok default

theorem field_eq_entryField {name : String} {names : List String} (mem : name ∈ names)
    (entries : List (String × SettingTree)) (default : α) (read : SettingTree → Converted α) :
    field (names.filterMap fun n => (Members.find? n entries).map (n, .name n, ·)) name default
        read = entryField entries name default read := by
  unfold field entryField
  rw [find?_fields, if_pos mem]
  cases Members.find? name entries <;> rfl

theorem entryField_of_find? {name : String} {entries : List (String × SettingTree)}
    {t : SettingTree} (found : Members.find? name entries = some t) (default : α)
    (read : SettingTree → Converted α) :
    entryField entries name default read = (read t).mapError (.under (.name name)) := by
  rw [entryField, found]

theorem entryField_insert_self (name : String) (value : SettingTree)
    (entries : List (String × SettingTree)) (default : α) (read : SettingTree → Converted α) :
    entryField (Members.insert name value entries) name default read =
      (read value).mapError (.under (.name name)) :=
  entryField_of_find? (Members.find?_insert_self name value entries) default read

theorem entryField_insert_of_ne {name key : String} (h : key ≠ name) (value : SettingTree)
    (entries : List (String × SettingTree)) (default : α) (read : SettingTree → Converted α) :
    entryField (Members.insert key value entries) name default read =
      entryField entries name default read := by
  rw [entryField, Members.find?_insert_of_ne h, entryField]

theorem toGeneration_eq (origin : Option Origin) (entries : List (String × SettingTree)) :
    toGeneration (.table origin entries) = (do
      let model ← entryField entries "model" ({} : GenerationSettings).model toText
      let strict ← entryField entries "strict" ({} : GenerationSettings).strict toBool
      let systemPrompt ← entryField entries "system_prompt"
        ({} : GenerationSettings).systemPrompt (optional toText)
      return { model, strict, systemPrompt }) := by
  have fields {α : Type} {name : String} (mem : name ∈ ["model", "strict", "system_prompt"]) :=
    field_eq_entryField (α := α) mem entries
  rw [← fields (by decide), ← fields (by decide), ← fields (by decide)]
  rfl

theorem toSettings_eq (origin : Option Origin) (entries : List (String × SettingTree)) :
    toSettings (.table origin entries) = (do
      let generation ← entryField entries "generation" {} toGeneration
      let output ← entryField entries "output" {} toOutput
      let check ← entryField entries "check" {} toCheck
      return { generation, output, check }) := by
  have fields {α : Type} {name : String} (mem : name ∈ ["generation", "output", "check"]) :=
    field_eq_entryField (α := α) mem entries
  rw [← fields (by decide), ← fields (by decide), ← fields (by decide)]
  rfl

section Variable

variable {x : TextSetting} {origin : Option Origin} {source : Origin} {old : Scalar}
  {entries : List (String × SettingTree)} {tree : SettingTree}

theorem toGeneration_insert (origin : Option Origin)
    (found : Members.find? x.name entries = some (.scalar source old))
    (value : Scalar) :
    toGeneration (.table origin (Members.insert x.name (.scalar .environment value) entries)) =
      (toGeneration (.table origin entries)).map (x.putText (scalarText value)) := by
  rw [toGeneration_eq, toGeneration_eq]
  cases x with
  | model =>
    rw [TextSetting.name] at found ⊢
    rw [entryField_of_find? found, entryField_insert_self, entryField_insert_of_ne (by decide),
      entryField_insert_of_ne (by decide)]
    cases entryField entries "strict" ({} : GenerationSettings).strict toBool with
    | error e => rfl
    | ok strict =>
      cases entryField entries "system_prompt" ({} : GenerationSettings).systemPrompt
          (optional toText) with
      | error e => rfl
      | ok prompt => rfl
  | systemPrompt =>
    rw [TextSetting.name] at found ⊢
    rw [entryField_of_find? found, entryField_insert_self, entryField_insert_of_ne (by decide),
      entryField_insert_of_ne (by decide)]
    cases entryField entries "model" ({} : GenerationSettings).model toText with
    | error e => rfl
    | ok model =>
      cases entryField entries "strict" ({} : GenerationSettings).strict toBool with
      | error e => rfl
      | ok strict => rfl

/-- Where the setting has a single value, another one from the environment only exchanges its text.
-/
theorem toSettings_withVariable (found : tree.at? "generation" x.name = some (.scalar source old))
    (value : Scalar) :
    (tree.withVariable "generation" x.name value).toSettings =
      tree.toSettings.map (x.put (scalarText value)) := by
  obtain ⟨group, hgroup, inside⟩ := Option.bind_eq_some_iff.1 found
  cases tree with
  | absent | scalar | list => cases hgroup
  | table origin entries =>
    cases group with
    | absent | scalar | list => cases inside
    | table origin' inner =>
      change Members.find? "generation" entries = some (table origin' inner) at hgroup
      change Members.find? x.name inner = some (scalar source old) at inside
      have exchanged : (table origin entries).withVariable "generation" x.name value =
          .table origin (Members.insert "generation" (.table origin'
            (Members.insert x.name (.scalar .environment value) inner)) entries) := by
        rw [withVariable_eq, SettingTree.entries, hgroup]
        rfl
      rw [exchanged, toSettings_eq, toSettings_eq, entryField_of_find? hgroup,
        entryField_insert_self, toGeneration_insert origin' inside value,
        entryField_insert_of_ne (by decide), entryField_insert_of_ne (by decide)]
      cases toGeneration (.table origin' inner) with
      | error e => rfl
      | ok generation =>
        cases entryField entries "output" {} toOutput with
        | error e => rfl
        | ok output =>
          cases entryField entries "check" {} toCheck with
          | error e => rfl
          | ok check => rfl

end Variable

end SettingTree

/-! ## Loading -/

namespace Settings

/-- The tree of the files that are read. -/
def filesTree (files : FileTree) (places : List String) (asked : Option String) :
    Except SettingsError SettingTree := do
  let tree ← places.foldlM (addUnasked files) (.table none [])
  match asked with
  | some path => addFile files tree path
  | none => .ok tree

theorem layers_eq_map (world : World) (asked : Option String) :
    layers world asked = (filesTree world.files (unaskedPlaces world) asked).map fun tree =>
      addVariables tree world.environment := by
  rw [layers, filesTree]
  cases (unaskedPlaces world).foldlM (addUnasked world.files) (.table none []) with
  | error e => rfl
  | ok tree =>
    cases asked with
    | none => rfl
    | some path => cases addFile world.files tree path <;> rfl

end Settings

namespace TextSetting

open Settings

variable (x : TextSetting) (files : FileTree) (before after : List (String × String))
  (asked : Option String)

/-- The surroundings with a text for the variable of the setting among other variables. -/
def world (text : String) : World :=
  ⟨files, before ++ (x.variableName, text) :: after⟩

/-- No variable changes the setting or takes away its group. -/
def IsLeftAloneBy (environment : List (String × String)) : Prop :=
  ∀ v ∈ environment, ∀ place ∈ keyOfVariable? v.1, Assignment.Spares "generation" x.name place

instance : DecidablePred x.IsLeftAloneBy := fun environment =>
  inferInstanceAs (Decidable (∀ v ∈ environment, ∀ place ∈ keyOfVariable? v.1, _))

theorem unaskedPlaces_world (text : String) :
    unaskedPlaces (x.world files before after text) = unaskedPlaces ⟨files, before ++ after⟩ := by
  have find? {name : String} (differs : x.variableName ≠ name) :
      Members.find? name (before ++ (x.variableName, text) :: after) =
        Members.find? name (before ++ after) :=
    Members.find?_append_cons_of_ne (m := (x.variableName, text)) differs before after
  have xdg : x.variableName ≠ "XDG_CONFIG_HOME" := by cases x <;> decide
  have home : x.variableName ≠ "HOME" := by cases x <;> decide
  simp only [unaskedPlaces, world, userPlace?, find? xdg, find? home]

theorem layer_world (text : String) :
    (Source.environment (x.world files before after text).environment).layer =
      (Source.environment before).layer ++
        ⟨[.name "generation", .name x.name], .scalar .environment (.ofText text)⟩ ::
          (Source.environment after).layer := by
  rw [world, Source.layer_environment, List.filterMap_append, List.filterMap_cons]
  simp only [keyOfVariable?_variableName, Option.map_some]
  rw [← Source.layer_environment, ← Source.layer_environment]

variable {before after}

/-- The tree of all variables for one text of the variable is that for another text with the value
exchanged. -/
theorem addVariables_world (alone : x.IsLeftAloneBy (before ++ after)) (tree : SettingTree)
    (text other : String) :
    ∃ final, addVariables tree (x.world files before after other).environment = final ∧
      addVariables tree (x.world files before after text).environment =
        final.withVariable "generation" x.name (.ofText text) ∧
      final.at? "generation" x.name = some (.scalar .environment (.ofText other)) := by
  have spares : ∀ a ∈ (Source.environment after).layer,
      Assignment.Spares "generation" x.name a.place := by
    intro a mem
    rw [Source.layer_environment] at mem
    obtain ⟨v, hv, given⟩ := List.mem_filterMap.1 mem
    obtain ⟨place, key, rfl⟩ := Option.map_eq_some_iff.1 given
    exact alone v (List.mem_append_right _ hv) place key
  have split (text : String) :
      addVariables tree (x.world files before after text).environment =
        Layer.apply ((Layer.apply tree (Source.environment before).layer).withVariable "generation"
          x.name (.ofText text)) (Source.environment after).layer := by
    rw [addVariables_eq, layer_world, Layer.apply, List.foldl_append]
    rfl
  generalize Layer.apply tree (Source.environment before).layer = start at split
  have given := at?_withVariable "generation" x.name (.ofText other) start
  obtain ⟨exchanged, kept⟩ := Layer.apply_withVariable spares (by rw [given]; rfl) (.ofText text)
  refine ⟨_, rfl, ?_, ?_⟩
  · rw [split, split, ← exchanged, withVariable_withVariable]
  · rw [split, kept, given]

/-- With another text of the variable the same settings are loaded except for this one, or loading
fails in the same way. -/
theorem load_world (alone : x.IsLeftAloneBy (before ++ after)) (text other : String) :
    load (x.world files before after text) asked =
      (load (x.world files before after other) asked).map (x.put (Scalar.arrival text)) := by
  rw [load, load, layers_eq_map, layers_eq_map, unaskedPlaces_world, unaskedPlaces_world]
  show (Except.map _ (filesTree files _ asked) >>= _) =
    Except.map _ (Except.map _ (filesTree files _ asked) >>= _)
  cases filesTree files (unaskedPlaces ⟨files, before ++ after⟩) asked with
  | error e => rfl
  | ok tree =>
    obtain ⟨final, others, exchanged, given⟩ :=
      x.addVariables_world files alone tree text other
    show (addVariables tree _).toSettings = Except.map _ (addVariables tree _).toSettings
    rw [others, exchanged, toSettings_withVariable given]
    rfl

variable (before after) in
theorem sources_world (text : String) :
    ∃ lower, sources ⟨files, before ++ after⟩ asked = lower ++ [.environment (before ++ after)] ∧
      sources (x.world files before after text) asked =
        lower ++ [.environment (x.world files before after text).environment] := by
  refine ⟨_, rfl, ?_⟩
  rw [sources, ← filterMap_unaskedPlaces, unaskedPlaces_world, ← filterMap_unaskedPlaces]
  rfl

/-- Whatever a single value is, it stands for a text. -/
theorem isText_toToml (value : Scalar) : value.toToml.IsText (scalarText value) := by
  refine (toText_ofToml_iff .environment).1 ?_
  rw [ofToml_toToml]
  rfl

/-- The variable only gives its own setting, and it gives a text. -/
theorem admits_of_isVariableFor {α : Type} (y : Setting α)
    (named : IsVariableFor y.group y.name x.variableName) (value : Scalar) :
    y.Admits value.toToml := by
  have place := (keyOfVariable?_eq_setting_iff y).2 named
  rw [keyOfVariable?_variableName] at place
  have text := isText_toToml value
  cases x <;> cases y <;>
    first | exact ⟨_, text⟩ | exact ⟨_, _, text, rfl⟩ | exact absurd place (by decide)

/-- The variable keeps a valid environment valid. -/
theorem isValid_world (valid : (Source.environment (before ++ after)).IsValid) (text : String) :
    (Source.environment (x.world files before after text).environment).IsValid := by
  rw [Source.isValid_environment_iff] at valid ⊢
  obtain ⟨first, second⟩ := List.forall_mem_append.1 valid
  refine List.forall_mem_append.2 ⟨first, List.forall_mem_cons.2 ⟨⟨fun place found => ?_,
    fun y named => x.admits_of_isVariableFor y named _⟩, second⟩⟩
  obtain rfl := Option.some.inj ((x.keyOfVariable?_variableName).symm.trans found)
  exact fun _ => rfl

/-- The variable keeps valid sources valid. -/
theorem hasValidSources_world (valid : HasValidSources ⟨files, before ++ after⟩ asked)
    (text : String) : HasValidSources (x.world files before after text) asked := by
  obtain ⟨lower, split, split'⟩ := x.sources_world files before after asked text
  obtain ⟨valids, environment⟩ := List.forall_mem_append.1 (split ▸ valid.valid)
  refine ⟨valid.found, split' ▸ List.forall_mem_append.2 ⟨valids, ?_⟩⟩
  exact List.forall_mem_singleton.2
    (x.isValid_world files (List.forall_mem_singleton.1 environment) text)

/-- If the other sources are valid, settings are loaded with the text that arrives. -/
theorem exists_load_world (alone : x.IsLeftAloneBy (before ++ after))
    (valid : HasValidSources ⟨files, before ++ after⟩ asked) (text : String) :
    ∃ s, load (x.world files before after text) asked = .ok s ∧
      x.text? s = some (Scalar.arrival text) := by
  obtain ⟨s, loaded, -⟩ := exists_load (x.hasValidSources_world files asked valid text)
  have exchanged := x.load_world files asked alone text text
  rw [loaded] at exchanged
  have same : s = x.put (Scalar.arrival text) s := Except.ok.inj exchanged
  exact ⟨s, loaded, same ▸ x.text?_put _ s⟩

/-! ## Files -/

/-- A document is the last source that gives the setting, and it gives this text. -/
def IsGivenByDocument (sources : List Source) (text : String) : Prop :=
  ∃ lower origin document higher, sources = lower ++ .document origin document :: higher ∧
    (Source.document origin document).given "generation" x.name = [.text text] ∧
    ∀ source ∈ higher, source.given "generation" x.name = []

theorem IsGivenByDocument.getLast? {sources : List Source} {text : String}
    (given : x.IsGivenByDocument sources text) :
    (sources.flatMap (Source.given "generation" x.name)).getLast? = some (.text text) := by
  obtain ⟨lower, origin, document, higher, rfl, given, silent⟩ := given
  rw [List.flatMap_append, List.flatMap_cons, given, List.flatMap_eq_nil_iff.2 silent,
    List.append_nil]
  exact List.getLast?_concat

/-- A text that a document gives is loaded as it is. -/
theorem exists_load_document {world : World} {asked : Option String}
    (valid : HasValidSources world asked) {text : String}
    (given : x.IsGivenByDocument (sources world asked) text) :
    ∃ s, load world asked = .ok s ∧ x.text? s = some text := by
  obtain ⟨s, loaded, values⟩ := exists_load valid
  refine ⟨s, loaded, ?_⟩
  have last := given.getLast?
  have same {s : String} (means : Toml.IsText (.text text) s) : s = text := by
    cases means with
    | written h => cases h; rfl
  cases x with
  | model => exact congrArg some (same ((values .model).means last))
  | systemPrompt =>
    obtain ⟨s', means, prompt⟩ := (values .systemPrompt).means last
    exact prompt.trans (congrArg some (same means))

/-- What a variable gives for a text setting is the text that arrives: the text of the variable
exactly if it spells no truth value or number, or is what is written for one. Nothing else depends
on the variable, neither other settings nor whether they are loaded. A text that a document gives is
always loaded as it is. -/
theorem load_variable_text (alone : x.IsLeftAloneBy (before ++ after)) (text : String) :
    (∀ other, load (x.world files before after text) asked =
      (load (x.world files before after other) asked).map (x.put (Scalar.arrival text))) ∧
    (HasValidSources ⟨files, before ++ after⟩ asked →
      ∃ s, load (x.world files before after text) asked = .ok s ∧
        x.text? s = some (Scalar.arrival text)) ∧
    (Scalar.arrival text = text ↔
      Scalar.ofText text = .text text ∨
        text ≠ "-0" ∧ ∃ value : Scalar, value.IsTyped ∧ scalarText value = text) ∧
    (HasValidSources ⟨files, before ++ after⟩ asked →
      x.IsGivenByDocument (sources ⟨files, before ++ after⟩ asked) text →
      ∃ s, load ⟨files, before ++ after⟩ asked = .ok s ∧ x.text? s = some text) :=
  ⟨x.load_world files asked alone text,
    fun valid => x.exists_load_world files asked alone valid text,
    Scalar.arrival_eq_self_iff,
    fun valid last => x.exists_load_document valid last⟩

/-- A working directory with a settings file that gives a system prompt. -/
def decimalFiles : FileTree where
  root := .directory [("w", .directory [
    ("narrative-schemas.toml", .file (.text (systemPrompt.put "+0.50" {}).document))])]
  working := ["w"]

/-- The same text comes as it is from the file, and shortened from the variable. A variable for
another setting follows. -/
theorem load_variable_text_decimalFiles :
    ∃ s t, load ⟨decimalFiles, [(model.variableName, "007")]⟩ none = .ok s ∧
      systemPrompt.text? s = some "+0.50" ∧
      load (systemPrompt.world decimalFiles [] [(model.variableName, "007")] "+0.50") none =
        .ok t ∧
      systemPrompt.text? t = some "0.5" := by
  let document := (systemPrompt.put "+0.50" {}).document
  let later : Source := .environment [(model.variableName, "007")]
  have split : sources ⟨decimalFiles, [] ++ [(model.variableName, "007")]⟩ none =
      [.document (.file "narrative-schemas.toml") document, later] := by
    decide +kernel
  have alone : systemPrompt.IsLeftAloneBy ([] ++ [(model.variableName, "007")]) := by
    decide +kernel
  have valid : HasValidSources ⟨decimalFiles, [] ++ [(model.variableName, "007")]⟩ none :=
    ⟨nofun, split ▸ List.forall_mem_cons.2 ⟨isValid_document _ _,
      List.forall_mem_singleton.2 (by decide +kernel)⟩⟩
  have given : systemPrompt.IsGivenByDocument
      (sources ⟨decimalFiles, [] ++ [(model.variableName, "007")]⟩ none) "+0.50" :=
    ⟨[], _, document, [later], split, given_document .systemPrompt _ _,
      List.forall_mem_singleton.2 (by decide +kernel)⟩
  have arrival : Scalar.arrival "+0.50" = "0.5" := by decide +kernel
  obtain ⟨-, fromVariable, -, fromDocument⟩ :=
    systemPrompt.load_variable_text decimalFiles none alone "+0.50"
  obtain ⟨s, loaded, text⟩ := fromDocument valid given
  obtain ⟨t, loaded', text'⟩ := fromVariable valid
  exact ⟨s, t, loaded, text, loaded', arrival ▸ text'⟩

/-- A working directory with nothing in it. -/
def noFiles : FileTree where
  root := .directory [("w", .directory [])]
  working := ["w"]

/-- A text that spells a whole number with a point loses it. -/
theorem load_variable_wholeNumber :
    load (model.world noFiles [] [] "1.0") none = .ok { generation := { model := "1" } } ∧
      ¬ ∃ s, load (model.world noFiles [] [] "1.0") none = .ok s ∧ model.text? s = some "1.0" := by
  have loaded : load (model.world noFiles [] [] "1.0") none =
      .ok { generation := { model := "1" } } := by
    decide +kernel
  refine ⟨loaded, ?_⟩
  rintro ⟨s, same, text⟩
  cases loaded.symm.trans same
  exact absurd text (by decide)

end TextSetting

end StrictSchema
