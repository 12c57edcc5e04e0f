import StrictSchema.Toml.Reader
import StrictSchema.Settings.Convert
import StrictSchema.Settings.Environment

/-!
# Loading settings

Settings come in layers, of which a later one wins: the files at the default places in order, the
file of the user, the file that was asked for, and the environment (`Settings.load`). A file that
nobody asked for may be missing or unreadable, but if it is read it has to be well formed.
-/

namespace StrictSchema

/-- The surroundings of a run: the files and the environment variables. -/
structure World where
  files : FileTree
  environment : List (String × String)

namespace Settings

/-- The places, under the working directory, of files that are read unasked. -/
def defaultPlaces : List String :=
  ["narrative-schemas.toml", ".narrative-schemas.toml", "config/narrative-schemas.toml"]

/-- The place of the file of the user, in the directory for settings that the environment names. The
directory of the user is known by the variable `HOME` alone: where it is not set, the list of users
that a system keeps is not asked. -/
def userPlace? (environment : List (String × String)) : Option String :=
  let set (name : String) : Option String :=
    (Members.find? name environment).filter fun value => !value.isEmpty
  let directory := match (set "XDG_CONFIG_HOME").filter FilePath.isAbsolute with
    | some directory => some directory
    | none => (set "HOME").map fun home => FilePath.join home ".config"
  directory.map fun d => FilePath.join d "narrative-schemas/narrative-schemas.toml"

/-! ## Files -/

/-- The file that a path asks for: the file there, or the one with a further extension. Only TOML is
known, so only one extension is: a file with another one is refused, and none is looked for with
another one. -/
def locate (files : FileTree) (path : String) : Except SettingsError String :=
  let further := FilePath.addExtension path "toml"
  if files.isFile path then
    if FilePath.extension? path = some "toml" then .ok path
    else .error (.unknownFormat (FilePath.absolute files.workingPath path))
  else if files.isFile further then .ok further
  else .error (.notFound path)

/-- The text of the file that a path asks for, with the name of the file. -/
def readFile (files : FileTree) (path : String) : Except SettingsError (Origin × String) := do
  let place ← locate files path
  let text ← (files.readText place).mapError .unreadable
  return (.file (FilePath.relativeTo files.workingPath place), text)

/-- Puts the settings of a document into a tree. -/
def addText (tree : SettingTree) (origin : Origin) (text : String) :
    Except SettingsError SettingTree :=
  match Toml.read? text with
  | none => .error (.malformed origin.text)
  | some entries => .ok (entries.foldl (fun tree (key, v) =>
      (SettingTree.ofToml origin v).assign (KeyPath.ofKey key) (some tree)) tree)

/-- Puts the settings of a file into a tree. -/
def addFile (files : FileTree) (tree : SettingTree) (path : String) :
    Except SettingsError SettingTree := do
  let (origin, text) ← readFile files path
  addText tree origin text

/-- Puts the settings of a file into a tree, if the file can be read. -/
def addUnasked (files : FileTree) (tree : SettingTree) (path : String) :
    Except SettingsError SettingTree :=
  match readFile files path with
  | .ok (origin, text) => addText tree origin text
  | .error _ => .ok tree

/-! ## Layers -/

/-- Puts the settings of environment variables into a tree. -/
def addVariables (tree : SettingTree) (environment : List (String × String)) : SettingTree :=
  environment.foldl (fun tree (name, text) =>
    match keyOfVariable? name with
    | some key => (SettingTree.scalar .environment (.ofText text)).assign key (some tree)
    | none => tree) tree

/-- The places of files that are read unasked. The one of the user counts only if something is
there. -/
def unaskedPlaces (world : World) : List String :=
  defaultPlaces ++ ((userPlace? world.environment).filter world.files.isThere).toList

/-- The tree of all layers. -/
def layers (world : World) (asked : Option String) : Except SettingsError SettingTree := do
  let tree ← (unaskedPlaces world).foldlM (addUnasked world.files) (.table none [])
  let tree ← match asked with
    | some path => addFile world.files tree path
    | none => .ok tree
  return addVariables tree world.environment

/-- Loads the settings; `asked` is the path of a file that has to be read. -/
def load (world : World) (asked : Option String) : Except SettingsError Settings := do
  (← layers world asked).toSettings

end Settings

end StrictSchema
