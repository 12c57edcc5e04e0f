import StrictSchema.Command.Run

/-!
# The program

The outer layer of the command line. It takes a picture of the part of the file system that the
arguments name, lets `StrictSchema.run` work on the picture, and then writes and prints what the
outcome says.
-/

open StrictSchema

namespace StrictSchema.Main

/-! ## Taking the picture -/

/-- What is at a path, with all that is under it if `deep`. What cannot be read is left out, and so
are links inside directories, which a walk passes over. -/
partial def readEntry (deep : Bool) (path : String) : IO (Option Entry) := do
  let place := System.mkFilePath [path]
  try
    if ← place.isDir then
      if !deep then return some (.directory [])
      let mut entries := []
      for e in ← place.readDir do
        unless (← e.path.symlinkMetadata).type matches .symlink do
          if let some entry ← readEntry deep (FilePath.join path e.fileName) then
            entries := (e.fileName, entry) :: entries
      return some (.directory entries.reverse)
    else return some (.file (.ofBytes (← IO.FS.readBinFile place)))
  catch _ => return none

/-- The picture with what is at a path added to it; a directory that is there already stays, unless
`deep`. -/
def addPath (deep : Bool) (tree : FileTree) (path : String) : IO FileTree := do
  match tree.resolveNew path with
  | .error _ => return tree
  | .ok names =>
    if !deep && tree.isThere path then return tree
    match ← readEntry deep path with
    | some entry => return { tree with root := entry.place names tree.root }
    | none => return tree

/-- The picture with a path and all the directories on the way to it. -/
def addWhole (deep : Bool) (tree : FileTree) (path : String) : IO FileTree := do
  let parts := FilePath.parts path
  let above := (List.range parts.length).map fun n => FilePath.ofParts (parts.take n)
  let tree ← (above.filter (!·.isEmpty)).foldlM (addPath false) tree
  addPath deep tree (FilePath.ofParts parts)

/-- The picture with what a walk over a path needs: all that is under the path, and whether the path
itself is that of a link. -/
def addWalk (tree : FileTree) (path : String) : IO FileTree := do
  let tree ← addWhole true tree path
  try
    match (← (System.mkFilePath [path]).symlinkMetadata).type with
    | .symlink => return { tree with links := path :: tree.links }
    | _ => return tree
  catch _ => return tree

/-- The names and values of the environment variables that are texts. -/
def readEnvironment : IO (List (String × String)) := do
  let text ← try IO.FS.readBinFile "/proc/self/environ" catch _ => pure ByteArray.empty
  let pieces := Text.split 0 text.data.toList
  return pieces.filterMap fun piece => do
    let (name, value) ← Text.cut '=' (← String.fromUTF8? ⟨piece.toArray⟩).toList
    return (String.ofList name, String.ofList value)

/-- The surroundings of a run, as far as its arguments need them. -/
def readWorld (arguments : List String) : IO World := do
  let environment ← readEnvironment
  let working := (FilePath.parts (← IO.currentDir).toString).filterMap fun
    | .name text => some text
    | _ => none
  let root := Entry.place (.directory []) working (.directory [])
  let invocation := Invocation.ofArguments? arguments
  let asked := (invocation.bind (·.settingsFile)).toList
  let settingsFiles := (Settings.defaultPlaces ++ (Settings.userPlace? environment).toList ++ asked)
  let mut files : FileTree := { root, working }
  for path in settingsFiles do
    files ← addWhole false files path
    files ← addWhole false files (FilePath.addExtension path "toml")
  for path in (invocation.map (·.command.paths)).getD [] do
    files ← addWalk files path
  return { files, environment }

/-! ## Carrying out the outcome -/

/-- Writes the file of an outcome. -/
def save (path text : String) : IO Unit := do
  match FilePath.parent? path with
  | some "" => pure ()
  | some parent => IO.FS.createDirAll parent
  | none => pure ()
  IO.FS.writeFile path text

/-- Writes and prints what an outcome says. -/
def carryOut (outcome : Outcome) : IO UInt32 := do
  try
    if let some (path, text) := outcome.saved then save path text
    IO.print outcome.output
    IO.eprint outcome.errors
    return outcome.status.code.toUInt32
  catch e =>
    IO.eprintln s!"Error: {e}"
    return Status.failure.code.toUInt32

end StrictSchema.Main

def main (arguments : List String) : IO UInt32 := do
  StrictSchema.Main.carryOut (run (← StrictSchema.Main.readWorld arguments) arguments)
