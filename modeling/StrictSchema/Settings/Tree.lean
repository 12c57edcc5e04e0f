import StrictSchema.Text.Concat
import StrictSchema.Text.LowerCase
import StrictSchema.Text.Split
import StrictSchema.Toml.Value

/-!
# Setting trees

Before they are read, settings are a tree of tables and lists whose values remember the `Origin`
that gave them (`SettingTree`). A source gives values at `KeyPath`s, and `SettingTree.assign` puts
each in its place: tables are merged key by key, and anything else replaces what was there. Names
are in lower case, except inside lists, which are taken as they are.
-/

namespace StrictSchema

/-- Where a setting comes from. -/
inductive Origin where
  | file (path : String)
  | environment
deriving DecidableEq, Repr

/-- The name of an origin. -/
def Origin.text : Origin → String
  | .file path => path
  | .environment => "the environment"

/-- A single value of a setting. -/
inductive Scalar where
  | bool (b : Bool)
  | integer (n : Int)
  | real (x : Real64)
  | text (s : String)
deriving DecidableEq

/-- A tree of settings. Tables that several sources may add to have no origin. -/
inductive SettingTree where
  | absent
  | scalar (origin : Origin) (value : Scalar)
  | list (origin : Option Origin) (elements : List SettingTree)
  | table (origin : Option Origin) (entries : List (String × SettingTree))

/-! ## Paths of keys -/

/-- A step into a tree: the name of an entry, or the index of an element, which counts from the end
if it is negative. -/
inductive KeyStep where
  | name (text : String)
  | index (n : Int)
deriving DecidableEq, Repr

/-- A place in a tree. -/
abbrev KeyPath := List KeyStep

/-- The text of a path: names have dots between them, indices stand in brackets. -/
def KeyPath.text : KeyPath → String
  | [] => ""
  | [.name s] => s
  | .name s :: .index n :: rest => s ++ KeyPath.text (.index n :: rest)
  | .name s :: rest => s ++ "." ++ KeyPath.text rest
  | .index n :: .name s :: rest =>
    Text.concat ["[", toString n, "].", KeyPath.text (.name s :: rest)]
  | .index n :: rest => Text.concat ["[", toString n, "]", KeyPath.text rest]

/-- Characters of a name in a path. -/
def isPathChar (c : Char) : Bool := c.isAlphanum || c = ' ' || c = '_' || c = '-'

/-- The text without the blanks before it. -/
def dropBlank (cs : List Char) : List Char := cs.dropWhile fun c => c = ' ' || c = '\t'

/-- The index between two brackets: an integer of 64 bits, which may have blanks around it. -/
def KeyStep.index? (cs : List Char) : Option Int :=
  let word := (dropBlank (dropBlank cs).reverse).reverse
  let (negative, digits) := match word with
    | '-' :: digits => (true, digits)
    | digits => (false, digits)
  if digits.isEmpty || !digits.all Char.isDigit then none
  else
    let n : Int := if negative then -Decimal.ofDigits digits else Decimal.ofDigits digits
    if FitsSigned n then some n else none

/-- Reads the steps that follow a name, at most as many as `count`. -/
def KeyPath.moreSteps? : Nat → List Char → Option KeyPath
  | _, [] => some []
  | 0, _ :: _ => none
  | count + 1, '.' :: rest =>
    let name := rest.takeWhile isPathChar
    if name.isEmpty then none
    else (moreSteps? count (rest.dropWhile isPathChar)).map fun steps =>
      .name (String.ofList name) :: steps
  | count + 1, '[' :: rest =>
    match Text.cut ']' rest with
    | none => none
    | some (inside, after) =>
      (KeyStep.index? inside).bind fun n =>
        (moreSteps? count after).map fun steps => .index n :: steps
  | _ + 1, _ :: _ => none

/-- A key as a path with its names in lower case. A text that is no path is a single name. -/
def KeyPath.ofKey (key : String) : KeyPath :=
  let cs := key.toList
  let first := cs.takeWhile isPathChar
  let steps? := if first.isEmpty then none
    else (KeyPath.moreSteps? cs.length (cs.dropWhile isPathChar)).map fun steps =>
      .name (String.ofList first) :: steps
  (steps?.getD [.name key]).map fun
    | .name s => .name (Text.lowerCase s)
    | .index n => .index n

namespace SettingTree

/-! ## Trees of documents -/

mutual

/-- The tree of a value in a document. Dates and times become texts. -/
def ofToml (origin : Origin) : Toml → SettingTree
  | .text s => .scalar origin (.text s)
  | .integer n => .scalar origin (.integer n)
  | .real x => .scalar origin (.real x)
  | .bool b => .scalar origin (.bool b)
  | .moment m => .scalar origin (.text m.text)
  | .list elements => .list (some origin) (ofElements origin elements)
  | .table entries => .table (some origin) (ofEntries origin entries)
termination_by structural v => v

/-- The trees of the elements of a list. -/
def ofElements (origin : Origin) : List Toml → List SettingTree
  | [] => []
  | v :: vs => ofToml origin v :: ofElements origin vs
termination_by structural vs => vs

/-- The trees of the entries of a table. -/
def ofEntries (origin : Origin) : List (String × Toml) → List (String × SettingTree)
  | [] => []
  | (key, v) :: rest => (key, ofToml origin v) :: ofEntries origin rest
termination_by structural vs => vs

end

/-! ## Merging -/

/-- The entries of a table; anything else has none. -/
def entries : SettingTree → List (String × SettingTree)
  | .table _ entries => entries
  | _ => []

/-- The elements of a list; anything else has none. -/
def elements : SettingTree → List SettingTree
  | .list _ elements => elements
  | _ => []

/-- The tree with an entry put into it; what is no table gives way to one. -/
def putEntry (tree : SettingTree) (key : String) (value : SettingTree) : SettingTree :=
  match tree with
  | .table origin entries => .table origin (Members.insert key value entries)
  | _ => .table none [(key, value)]

mutual

/-- A value put in the place of `current`. -/
def merge (current : Option SettingTree) : SettingTree → SettingTree
  | .table _ entries => mergeEntries (current.getD (.table none [])) entries
  | .absent => .absent
  | .scalar origin value => .scalar origin value
  | .list origin elements => .list origin elements
termination_by structural v => v

/-- Entries put into a tree one after the other, with their names in lower case. -/
def mergeEntries (target : SettingTree) : List (String × SettingTree) → SettingTree
  | [] => target
  | (key, value) :: rest =>
    let name := Text.lowerCase key
    mergeEntries (target.putEntry name (merge (Members.find? name target.entries) value)) rest
termination_by structural es => es

end

/-- The list with room for an index, and the position that the index stands for. Absent elements are
added behind the last one or, for an index before the first one, in front. -/
def withRoom (elements : List SettingTree) : Int → List SettingTree × Nat
  | .ofNat n => (elements ++ List.replicate (n + 1 - elements.length) .absent, n)
  | .negSucc n =>
    (List.replicate (n + 1 - elements.length) .absent ++ elements, elements.length - (n + 1))

/-- The origin of a list; anything else is no list of its own. -/
def listOrigin? : SettingTree → Option Origin
  | .list origin _ => origin
  | _ => none

/-- The tree with a value put in a place. What stands on the way is made a table or a list. -/
def assign (value : SettingTree) : KeyPath → Option SettingTree → SettingTree
  | [], current => merge current value
  | .name key :: rest, current =>
    let tree := current.getD .absent
    tree.putEntry key (assign value rest (Members.find? key tree.entries))
  | .index n :: rest, current =>
    let tree := current.getD .absent
    let (room, position) := withRoom tree.elements n
    let element := if rest.isEmpty then value else assign value rest room[position]?
    .list tree.listOrigin? (room.set position element)

end SettingTree

end StrictSchema
