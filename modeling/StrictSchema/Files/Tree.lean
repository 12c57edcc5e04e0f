import StrictSchema.Members
import StrictSchema.Files.Path

/-!
# File trees

A `FileTree` is a root directory with the directory in which the program works. Paths are followed
part by part (`FileTree.find`), and whatever goes wrong is a `FileError`; names and paths have at
most so many bytes (`FileTree.nameLimit`, `FileTree.pathLimit`). Reading gives the text of a file;
writing and making directories give the changed tree.
-/

namespace StrictSchema

/-- Why an operation on files fails. -/
inductive FileError where
  | notFound
  | alreadyExists
  | notDirectory
  | isDirectory
  | nameTooLong
  | nullInPath
  | notText
deriving DecidableEq, Repr

/-- The wording of a file error. -/
def FileError.message : FileError → String
  | .notFound => "No such file or directory (os error 2)"
  | .alreadyExists => "File exists (os error 17)"
  | .notDirectory => "Not a directory (os error 20)"
  | .isDirectory => "Is a directory (os error 21)"
  | .nameTooLong => "File name too long (os error 36)"
  | .nullInPath => "file name contained an unexpected NUL byte"
  | .notText => "stream did not contain valid UTF-8"

/-- What a file holds: a text, or bytes that are none. -/
inductive Content where
  | text (s : String)
  | binary
deriving DecidableEq, Repr

/-- What a byte string holds. -/
def Content.ofBytes (bytes : ByteArray) : Content :=
  match String.fromUTF8? bytes with
  | some s => .text s
  | none => .binary

/-- The text that is held, if it is one. -/
def Content.read : Content → Except FileError String
  | .text s => .ok s
  | .binary => .error .notText

/-- A file or a directory. -/
inductive Entry where
  | file (content : Content)
  | directory (entries : List (String × Entry))

namespace Entry

instance : Inhabited Entry := ⟨.directory []⟩

/-- The entry under the given names. -/
def find (entry : Entry) : List String → Except FileError Entry
  | [] => .ok entry
  | name :: names =>
    match entry with
    | .file _ => .error .notDirectory
    | .directory entries =>
      match Members.find? name entries with
      | some inner => find inner names
      | none => .error .notFound

/-- The entry with another one put under the given names, which all but the last must be those of
directories. -/
def put (new : Entry) : List String → Entry → Except FileError Entry
  | [], _ => .ok new
  | [name], .directory entries => .ok (.directory (Members.insert name new entries))
  | name :: names, .directory entries =>
    match Members.find? name entries with
    | some inner => (put new names inner).map fun e => .directory (Members.insert name e entries)
    | none => .error .notFound
  | _ :: _, .file _ => .error .notDirectory

/-- The entry with another one put under the given names, where directories that are not there are
made. -/
def place (new : Entry) : List String → Entry → Entry
  | [], _ => new
  | name :: names, .directory entries =>
    .directory (Members.insert name
      (place new names ((Members.find? name entries).getD (.directory []))) entries)
  | name :: names, .file _ => .directory [(name, place new names (.directory []))]

end Entry

/-- A root directory, and the names that lead from it to the working directory. A walk may start at
the paths of symbolic links in `links`; in the tree, what a link leads to stands in its place. -/
structure FileTree where
  root : Entry
  working : List String
  links : List String := []

namespace FileTree

open FilePath

/-- The path of the working directory. -/
def workingPath (tree : FileTree) : String := "/" ++ "/".intercalate tree.working

/-- How many bytes a name in a directory may have. -/
def nameLimit : Nat := 255

/-- How many bytes a path may have. -/
def pathLimit : Nat := 4095

/-- Refuses a path that no file can have, wherever it leads. -/
def checkPath (path : String) : Except FileError Unit :=
  if path.toList.contains '\x00' then .error .nullInPath
  else if path.isEmpty then .error .notFound
  else if pathLimit < path.utf8ByteSize then .error .nameTooLong
  else .ok ()

/-- Follows the parts of a path from the directory under the given names. What a part is looked up
in, or leads away from, has to be a directory. -/
def follow (tree : FileTree) (names : List String) : List Part → Except FileError (List String)
  | [] => .ok names
  | part :: rest => do
    match ← tree.root.find names with
    | .file _ => .error .notDirectory
    | .directory entries =>
      match part with
      | .root => tree.follow [] rest
      | .here => tree.follow names rest
      | .up => tree.follow names.dropLast rest
      | .name text =>
        if nameLimit < text.utf8ByteSize then .error .nameTooLong
        else if (Members.find? text entries).isSome then tree.follow (names ++ [text]) rest
        else .error .notFound

/-- The parts of a path, where a slash at its end asks for a directory. -/
def partsAsked (path : String) : List Part :=
  let asks := path.endsWith "/" || path.endsWith "/."
  parts path ++ (if asks then [.here] else [])

/-- The names that lead from the root to what a path stands for. -/
def resolve (tree : FileTree) (path : String) : Except FileError (List String) := do
  checkPath path
  tree.follow tree.working (partsAsked path)

/-- What a path stands for. -/
def find (tree : FileTree) (path : String) : Except FileError Entry := do
  tree.root.find (← tree.resolve path)

/-- Whether a path stands for a file. -/
def isFile (tree : FileTree) (path : String) : Bool :=
  match tree.find path with
  | .ok (.file _) => true
  | _ => false

/-- Whether a path stands for anything. -/
def isThere (tree : FileTree) (path : String) : Bool :=
  match tree.find path with
  | .ok _ => true
  | .error _ => false

/-- The text of a file. -/
def readText (tree : FileTree) (path : String) : Except FileError String := do
  match ← tree.find path with
  | .file content => content.read
  | .directory _ => .error .isDirectory

/-- Whether a path stands for a directory. -/
def isDirectory (tree : FileTree) (path : String) : Bool :=
  match tree.find path with
  | .ok (.directory _) => true
  | _ => false

/-- Whether the last piece of a path is a single dot, which slashes may follow. -/
def endsInDot (path : String) : Bool :=
  ((Text.split '/' path.toList).filter (!·.isEmpty)).getLast? = some ['.']

/-- The names of what a path stands for, which need not be there itself, but its directory must. -/
def resolveNew (tree : FileTree) (path : String) : Except FileError (List String) := do
  checkPath path
  match (parts path).reverse with
  | .name text :: rest =>
    if endsInDot path then tree.resolve path
    else
      let names ← tree.follow tree.working rest.reverse
      match ← tree.root.find names with
      | .file _ => .error .notDirectory
      | .directory _ =>
        if nameLimit < text.utf8ByteSize then .error .nameTooLong else .ok (names ++ [text])
  | _ => tree.resolve path

/-- The tree with a text written to a file, which a path with a slash at its end does not stand
for. -/
def writeText (tree : FileTree) (path text : String) : Except FileError FileTree := do
  let names ← tree.resolveNew path
  if path.endsWith "/" then .error .isDirectory
  else match tree.root.find names with
    | .ok (.directory _) => .error .isDirectory
    | _ => (Entry.put (.file (.text text)) names tree.root).map fun root => { tree with root }

/-- The tree with a directory made under a path. -/
def makeDirectory (tree : FileTree) (path : String) : Except FileError FileTree := do
  let names ← tree.resolveNew path
  match tree.root.find names with
  | .ok _ => .error .alreadyExists
  | .error _ => (Entry.put (.directory []) names tree.root).map fun root => { tree with root }

/-- The tree with a directory made under a path, unless there is one. -/
def ensureDirectory (tree : FileTree) (path : String) : Except FileError FileTree :=
  match tree.makeDirectory path with
  | .ok next => .ok next
  | .error e => if tree.isDirectory path then .ok tree else .error e

/-- The tree with a directory under the path of the given parts, last part first. Where the
directory above is not there, it is made before. -/
def ensureParts (tree : FileTree) : List Part → Except FileError FileTree
  | [] => .ok tree
  | part :: above =>
    let path := ofParts (part :: above).reverse
    match tree.ensureDirectory path with
    | .error .notFound => do
      let next ← tree.ensureParts above
      next.ensureDirectory path
    | result => result

/-- The tree with a directory under a path and, where they are not there, under the paths above. -/
def ensureDirectories (tree : FileTree) (path : String) : Except FileError FileTree :=
  tree.ensureParts (parts path).reverse

end FileTree

end StrictSchema
