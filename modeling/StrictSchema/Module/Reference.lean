import StrictSchema.Module.Version

/-!
# Module references

A module is addressed as `namespace:name@vX.Y.Z`, where further parts of the form `-segment` may
follow the version. Both names are made of segments of lower-case letters and digits with single
hyphens between them (`isValidName`). `ModuleRef.parse?` reads the four parts of such a text and
`ModuleRef.text` joins them again. `matchesModule expected value` compares texts: an expected text
without a version stands for all versions of the module.
-/

namespace StrictSchema

/-- The four parts of a module reference. The version has no leading `v`; the pre-version is empty
or starts with a hyphen. -/
structure ModuleRef where
  space : String := ""
  name : String := ""
  version : String := ""
  preversion : String := ""
deriving DecidableEq

/-! ## The grammar of the parts -/

/-- Characters of a segment: ASCII lower-case letters and digits. -/
def isNameChar (c : Char) : Bool := c.isLower || c.isDigit

def isNameSegment (cs : List Char) : Bool := !cs.isEmpty && cs.all isNameChar

/-- Segments with single hyphens between them. -/
def isName (cs : List Char) : Bool := (Text.split '-' cs).all isNameSegment

/-- Three numbers, of any length, with dots between them. -/
def isVersionNumber (cs : List Char) : Bool :=
  match Text.split '.' cs with
  | [major, minor, patch] =>
    [major, minor, patch].all fun digits => !digits.isEmpty && digits.all Char.isDigit
  | _ => false

/-- Nothing, or segments each of which follows a hyphen. -/
def isPreversion : List Char → Bool
  | [] => true
  | c :: cs => c = '-' && isName cs

/-- Whether a text can be the name of a module or of a namespace. -/
def isValidName (s : String) : Bool := isName s.toList

namespace ModuleRef

/-! ## Reading and writing -/

/-- The parts of a reference, if the text is one. -/
def parse? (value : String) : Option ModuleRef := do
  let (space, afterSpace) ← Text.cut ':' value.toList
  let (name, afterName) ← Text.cut '@' afterSpace
  let isVersionChar (c : Char) : Bool := c.isDigit || c = '.'
  match afterName with
  | 'v' :: numbers =>
    let version := numbers.takeWhile isVersionChar
    let preversion := numbers.dropWhile isVersionChar
    if isName space && isName name && isVersionNumber version && isPreversion preversion then
      some {
        space := String.ofList space
        name := String.ofList name
        version := String.ofList version
        preversion := String.ofList preversion }
    else none
  | _ => none

/-- The parts of a reference; those of a text that is none are empty. -/
def ofText (value : String) : ModuleRef := (parse? value).getD {}

def isVersionless (m : ModuleRef) : Bool := m.version.isEmpty

/-- The reference without its version. -/
def versionlessText (m : ModuleRef) : String := m.space ++ ":" ++ m.name

/-- The text of a reference; without a version there is no pre-version either. -/
def text (m : ModuleRef) : String :=
  if m.isVersionless then m.versionlessText
  else m.versionlessText ++ "@v" ++ m.version ++ m.preversion

/-- The version and pre-version as a semantic version. -/
def semanticVersion (m : ModuleRef) : Except VersionError Version :=
  Version.parse (m.version ++ m.preversion)

end ModuleRef

/-! ## Comparing texts -/

/-- What stands before the version in the text of a reference. -/
def versionlessPart (value : String) : String :=
  match Text.cut '@' value.toList with
  | some (before, _) => String.ofList before
  | none => value

/-- Whether a text addresses the expected module, in the expected version if there is one. -/
def matchesModule (expected value : String) : Bool :=
  if expected.toList.contains '@' then value == expected else versionlessPart value == expected

end StrictSchema
