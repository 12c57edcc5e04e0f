import StrictSchema.Text.Split

/-!
# File paths

A path is a text with slashes between its parts. Empty parts and single dots say nothing, except a
dot at the start of a relative path; two dots stand for the parent directory (`FilePath.parts`). The
extension of a path is what follows the last dot of its last part, if that part has a dot other than
its first character.
-/

namespace StrictSchema.FilePath

/-- A part of a path. -/
inductive Part where
  | root
  | here
  | up
  | name (text : String)
deriving DecidableEq, Repr

/-- The text of a part. -/
def Part.text : Part → String
  | .root => "/"
  | .here => "."
  | .up => ".."
  | .name text => text

/-- A piece between slashes as a part, unless it says nothing. -/
def Part.ofPiece? (piece : List Char) : Option Part :=
  if piece = [] ∨ piece = ['.'] then none
  else if piece = ['.', '.'] then some .up
  else some (.name (String.ofList piece))

/-- The parts of a path. -/
def parts (path : String) : List Part :=
  let pieces := Text.split '/' path.toList
  let first : List Part := match pieces with
    | [] :: _ :: _ => [.root]
    | ['.'] :: _ => [.here]
    | _ => []
  first ++ pieces.filterMap Part.ofPiece?

/-- The path of the given parts. -/
def ofParts : List Part → String
  | [] => ""
  | .root :: rest => "/" ++ "/".intercalate (rest.map Part.text)
  | ps => "/".intercalate (ps.map Part.text)

def isAbsolute (path : String) : Bool := path.toList.head? = some '/'

/-- The name of the file, if the path ends in a name. -/
def fileName? (path : String) : Option String :=
  match (parts path).getLast? with
  | some (.name text) => some text
  | _ => none

/-- The extension of a file name. -/
def nameExtension? (name : String) : Option String :=
  match Text.cut '.' name.toList.reverse with
  | some (_, []) => none
  | some (after, _) => some (String.ofList after.reverse)
  | none => none

/-- The extension of a path. -/
def extension? (path : String) : Option String := (fileName? path).bind nameExtension?

/-- The path without its last part, if there is one other than the root. -/
def parent? (path : String) : Option String :=
  match (parts path).reverse with
  | [] => none
  | .root :: _ => none
  | _ :: rest => some (ofParts rest.reverse)

/-- The path of an entry of a directory. -/
def join (directory name : String) : String :=
  if directory.toList.getLast? = some '/' then directory ++ name else directory ++ "/" ++ name

/-- A path as it is written from the root, where relative ones start in `directory`. -/
def absolute (directory path : String) : String :=
  if isAbsolute path then path else join directory path

/-- The path with a further extension after its file name; a path without one is left as it is. -/
def addExtension (path extension : String) : String :=
  match (parts path).reverse with
  | .name text :: rest => ofParts ((.name (text ++ "." ++ extension) :: rest).reverse)
  | _ => path

/-- What leads from one list of parts to another: up from where they part, then down. -/
def relativeParts : List Part → List Part → List Part
  | target, [] => target
  | [], base => base.map fun _ => .up
  | t :: target, b :: base =>
    if t = b then relativeParts target base
    else (b :: base).map (fun _ => .up) ++ t :: target

/-- A path as seen from an absolute directory. -/
def relativeTo (directory path : String) : String :=
  let here (p : Part) : Bool := p != .here
  let target := if isAbsolute path then parts path
    else parts directory ++ (parts path).filter here
  ofParts (relativeParts target (parts directory))

end StrictSchema.FilePath
