import StrictSchema.Number.Decimal
import StrictSchema.Number.Word
import StrictSchema.Text.Concat
import StrictSchema.Text.Quoted
import StrictSchema.Text.Split

/-!
# Semantic versions

A version is three numbers of 64 bits, a pre-release and build metadata, the latter two as text
(`Version`). `Version.parse` reads a text from the left and stops at the first fault, which is
reported with the part that was being read. `Version.precedence` compares the numbers, then the
pre-releases: a release comes after its pre-releases, and of two pre-releases the first segment that
differs decides.
-/

namespace StrictSchema

/-- A part of a version text. -/
inductive VersionPart where
  | major
  | minor
  | patch
  | pre
  | build
deriving DecidableEq, Repr

/-- The name of a part. -/
def VersionPart.text : VersionPart → String
  | .major => "major version number"
  | .minor => "minor version number"
  | .patch => "patch version number"
  | .pre => "pre-release identifier"
  | .build => "build metadata"

/-- Why a text is no version. -/
inductive VersionError where
  | empty
  | unexpectedEnd (part : VersionPart)
  | unexpectedChar (part : VersionPart) (c : Char)
  | unexpectedAfter (part : VersionPart) (c : Char)
  | leadingZero (part : VersionPart)
  | tooLarge (part : VersionPart)
  | emptySegment (part : VersionPart)
deriving DecidableEq, Repr

/-- The wording of a version error. -/
def VersionError.message : VersionError → String
  | .empty => "empty string, expected a semver version"
  | .unexpectedEnd part => Text.concat ["unexpected end of input while parsing ", part.text]
  | .unexpectedChar part c =>
    Text.concat ["unexpected character ", Text.quotedChar c, " while parsing ", part.text]
  | .unexpectedAfter part c =>
    Text.concat ["unexpected character ", Text.quotedChar c, " after ", part.text]
  | .leadingZero part => Text.concat ["invalid leading zero in ", part.text]
  | .tooLarge part => Text.concat ["value of ", part.text, " exceeds u64::MAX"]
  | .emptySegment part => Text.concat ["empty identifier segment in ", part.text]

/-- A semantic version. -/
structure Version where
  major : Nat
  minor : Nat
  patch : Nat
  pre : List Char
  build : List Char
deriving DecidableEq

namespace Version

/-! ## Reading -/

/-- Reads the digits of a number after `value`. -/
def numberRest (part : VersionPart) (value : Nat) :
    List Char → Except VersionError (Nat × List Char)
  | [] => .ok (value, [])
  | c :: rest =>
    if c.isDigit then
      let next := 10 * value + (c.toNat - '0'.toNat)
      if value = 0 then .error (.leadingZero part)
      else if greatestWord < next then .error (.tooLarge part)
      else numberRest part next rest
    else .ok (value, c :: rest)

/-- Reads a number. -/
def number (part : VersionPart) : List Char → Except VersionError (Nat × List Char)
  | [] => .error (.unexpectedEnd part)
  | c :: rest =>
    if c.isDigit then numberRest part (c.toNat - '0'.toNat) rest
    else .error (.unexpectedChar part c)

/-- Reads the dot after a number. -/
def dot (part : VersionPart) : List Char → Except VersionError (List Char)
  | [] => .error (.unexpectedEnd part)
  | c :: rest => if c = '.' then .ok rest else .error (.unexpectedAfter part c)

/-- The characters of segments. -/
def isSegmentChar (c : Char) : Bool := c.isAlphanum || c = '-'

/-- Checks one segment of a part: it is not empty, and a number in a pre-release does not start with
a zero. -/
def checkSegment (part : VersionPart) (segment : List Char) : Except VersionError Unit :=
  if segment.isEmpty then .error (.emptySegment part)
  else if part = .pre ∧ segment.all Char.isDigit ∧ 1 < segment.length ∧
      segment.head? = some '0' then
    .error (.leadingZero part)
  else .ok ()

/-- Reads segments with dots between them, up to the first other character. -/
def segments (part : VersionPart) (cs : List Char) :
    Except VersionError (List Char × List Char) := do
  let isPart (c : Char) : Bool := isSegmentChar c || c = '.'
  let read := cs.takeWhile isPart
  (Text.split '.' read).forM (checkSegment part)
  return (read, cs.dropWhile isPart)

/-- Reads a part that starts with the given mark, if it is there. -/
def optional (mark : Char) (part before : VersionPart) (cs : List Char) :
    Except VersionError (List Char × VersionPart × List Char) :=
  match cs with
  | c :: rest =>
    if c = mark then do
      let (read, after) ← segments part rest
      return (read, part, after)
    else .ok ([], before, cs)
  | [] => .ok ([], before, [])

/-- Reads a text as a version. -/
def parseChars (cs : List Char) : Except VersionError Version := do
  if cs.isEmpty then throw .empty
  let (major, cs) ← number .major cs
  let cs ← dot .major cs
  let (minor, cs) ← number .minor cs
  let cs ← dot .minor cs
  let (patch, cs) ← number .patch cs
  let (pre, last, cs) ← optional '-' .pre .patch cs
  let (build, last, cs) ← optional '+' .build last cs
  match cs with
  | [] => return { major, minor, patch, pre, build }
  | c :: _ => throw (.unexpectedAfter last c)

/-- Reads a text as a version. -/
def parse (s : String) : Except VersionError Version := parseChars s.toList

/-! ## Writing -/

/-- A part after its mark, unless it is empty. -/
def marked (mark : Char) (part : List Char) : List Char := if part.isEmpty then [] else mark :: part

/-- The characters of a version. -/
def chars (v : Version) : List Char :=
  Decimal.digitsOf v.major ++ '.' :: Decimal.digitsOf v.minor ++ '.' :: Decimal.digitsOf v.patch ++
    marked '-' v.pre ++ marked '+' v.build

/-- The text of a version. -/
def text (v : Version) : String := String.ofList v.chars

/-! ## Precedence -/

/-- The order of two segments: numbers by value and before the others, which go by their
characters. -/
def compareSegments (a b : List Char) : Ordering :=
  match a.all Char.isDigit, b.all Char.isDigit with
  | true, true => (compare a.length b.length).then (compare (String.ofList a) (String.ofList b))
  | true, false => .lt
  | false, true => .gt
  | false, false => compare (String.ofList a) (String.ofList b)

/-- The order of two lists of segments: a beginning comes first. -/
def compareAll : List (List Char) → List (List Char) → Ordering
  | [], [] => .eq
  | [], _ :: _ => .lt
  | _ :: _, [] => .gt
  | a :: as, b :: bs => (compareSegments a b).then (compareAll as bs)

/-- The order of two pre-releases; none is the last. -/
def comparePre (a b : List Char) : Ordering :=
  match a.isEmpty, b.isEmpty with
  | true, true => .eq
  | true, false => .gt
  | false, true => .lt
  | false, false => compareAll (Text.split '.' a) (Text.split '.' b)

/-- The order of precedence. -/
def precedence (a b : Version) : Ordering :=
  (compare a.major b.major).then <| (compare a.minor b.minor).then <|
    (compare a.patch b.patch).then (comparePre a.pre b.pre)

end Version

end StrictSchema
