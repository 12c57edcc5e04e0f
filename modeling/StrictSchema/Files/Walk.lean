import StrictSchema.Files.Tree

/-!
# Walking a file tree

`FileTree.walk path` lists what a walk over a path comes across: files with what reading them gives,
directories and symbolic links, which are not read, and paths that cannot be followed. A directory
comes before what is in it, in the order of names; each path is the one it was reached by.
-/

namespace StrictSchema

/-- What reading a file gives: its text, or the reason why there is none. -/
abbrev FileText := Except FileError String

/-- What a walk comes across: an entry of one of three kinds, or a path that cannot be followed. -/
inductive WalkStep where
  | file (path : String) (text : FileText)
  | directory (path : String)
  | link (path : String)
  | fault (path : String) (error : FileError)

namespace Entry

/-- The order of names. -/
def nameOrder {α : Type} (a b : String × α) : Bool := a.1 ≤ b.1

/-- What a walk comes across in a directory, from what it comes across at each entry, by name. The
path of the directory must not be too long to be opened. -/
def stepsInside (path : String) (entries : List (String × List WalkStep)) : List WalkStep :=
  match FileTree.checkPath path with
  | .error e => [.fault path e]
  | .ok _ => (entries.mergeSort nameOrder).flatMap Prod.snd

mutual

/-- What a walk comes across at an entry reached by `path`, where files are read by `read`. -/
def stepsUnder (read : String → FileText) (path : String) : Entry → List WalkStep
  | .file _ => [.file path (read path)]
  | .directory entries => .directory path :: stepsInside path (stepsOfEach read path entries)
termination_by structural e => e

/-- What it comes across at each of the entries of a directory, by the name of the entry. -/
def stepsOfEach (read : String → FileText) (path : String) :
    List (String × Entry) → List (String × List WalkStep)
  | [] => []
  | (name, entry) :: rest =>
    (name, stepsUnder read (FilePath.join path name) entry) :: stepsOfEach read path rest
termination_by structural es => es

end

/-- What a walk comes across behind a link that leads to an entry: what is in a directory, but not a
file. -/
def stepsBehind (read : String → FileText) (path : String) : Entry → List WalkStep
  | .file _ => []
  | .directory entries => stepsInside path (stepsOfEach read path entries)

end Entry

/-- What a walk over a path comes across. -/
def FileTree.walk (tree : FileTree) (path : String) : List WalkStep :=
  match tree.find path with
  | .ok entry =>
    if tree.links.contains path then .link path :: entry.stepsBehind tree.readText path
    else entry.stepsUnder tree.readText path
  | .error e => [.fault path e]

end StrictSchema
