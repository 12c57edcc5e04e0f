import StrictSchema.Json.Basic
import StrictSchema.Text.Concat

/-!
# JSON text input

`Json.read` reads a text as one value. A reading step takes the characters that are left and returns
what it read with the rest, or a `Fault`: the cause, and how many bytes were left unread when it
showed. The reader looks at one byte at a time, so a byte that was only looked at counts as read
(`faultAt`) and the end of the text adds nothing. The depth of nested containers is bounded, and the
list of what is left bounds the rest of the recursion.
-/

namespace StrictSchema.Json

/-! ## Faults -/

/-- What is wrong with a text. -/
inductive SyntaxCause where
  | endInValue
  | endInList
  | endInObject
  | endInString
  | noValue
  | noListEnd
  | noObjectEnd
  | noColon
  | keyNotString
  | trailingComma
  | trailingCharacters
  | badNumber
  | numberTooLarge
  | badWord
  | controlCharacter
  | badEscape
  | unpairedSurrogate
  | unfinishedSurrogate
  | tooDeep
deriving DecidableEq, Repr

/-- The wording of a cause. -/
def SyntaxCause.message : SyntaxCause → String
  | .endInValue => "EOF while parsing a value"
  | .endInList => "EOF while parsing a list"
  | .endInObject => "EOF while parsing an object"
  | .endInString => "EOF while parsing a string"
  | .noValue => "expected value"
  | .noListEnd => "expected `,` or `]`"
  | .noObjectEnd => "expected `,` or `\x7d`"
  | .noColon => "expected `:`"
  | .keyNotString => "key must be a string"
  | .trailingComma => "trailing comma"
  | .trailingCharacters => "trailing characters"
  | .badNumber => "invalid number"
  | .numberTooLarge => "number out of range"
  | .badWord => "expected ident"
  | .controlCharacter =>
    "control character (\\u0000-\\u001F) found while parsing a string"
  | .badEscape => "invalid escape"
  | .unpairedSurrogate => "lone leading surrogate in hex escape"
  | .unfinishedSurrogate => "unexpected end of hex escape"
  | .tooDeep => "recursion limit exceeded"

/-- A cause and the number of bytes that were not read. -/
structure Fault where
  cause : SyntaxCause
  unread : Nat
deriving DecidableEq, Repr

/-- The number of bytes that characters take in UTF-8. -/
def byteCount : List Char → Nat
  | [] => 0
  | c :: cs => c.utf8Size + byteCount cs

/-- The fault found when `rest` is left. -/
def faultBefore {α : Type} (cause : SyntaxCause) (rest : List Char) : Except Fault α :=
  .error ⟨cause, byteCount rest⟩

/-- The fault found in the first byte of what is left, or at the end of the text. -/
def faultAt {α : Type} (cause : SyntaxCause) (rest : List Char) : Except Fault α :=
  .error ⟨cause, byteCount rest - 1⟩

/-! ## Words and numbers -/

/-- What is left after blanks. -/
def skipBlank (cs : List Char) : List Char :=
  cs.dropWhile fun c => c = ' ' || c = '\t' || c = '\n' || c = '\r'

/-- Reads the letters of a word that stands for `v`. -/
def readWord (v : Json) : List Char → List Char → Except Fault (Json × List Char)
  | [], rest => .ok (v, rest)
  | _ :: _, [] => faultAt .endInValue []
  | letter :: letters, c :: rest =>
    if c = letter then readWord v letters rest else faultAt .badWord (c :: rest)

/-- The exponents that are read as numbers. -/
def greatestExponent : Nat := 2147483647

/-- Reads the digits of an exponent after `n`, and stops with what is left where it grows too
large. -/
def exponentDigits (n : Nat) : List Char → Except (List Char) (Nat × List Char)
  | [] => .ok (n, [])
  | c :: rest =>
    if c.isDigit then
      let m := 10 * n + (c.toNat - '0'.toNat)
      if greatestExponent < m then .error rest else exponentDigits m rest
    else .ok (n, c :: rest)

/-- The floating-point number with the given digits before and after the point: the one nearest to
what the digits spell. It is rounded once, from the exact value. A reader that scales the digits by
powers of ten in floating-point arithmetic rounds more than once and may be off by a unit in the
last place (`1e-24`, `0.12345678901234567`), or take the greatest numbers for too large ones
(`1.7976931348623158e308`). -/
def floatNumber (negative : Bool) (whole fraction : List Char) (exponent : Int)
    (rest : List Char) : Except Fault (Number × List Char) :=
  match Binary64.ofDecimal negative (Decimal.ofDigits (whole ++ fraction))
      (exponent - fraction.length) with
  | some x => .ok (.float x, rest)
  | none => faultBefore .numberTooLarge rest

/-- Reads an exponent after its letter. One too large for a number makes the number zero, unless it
is positive and there are digits other than zero. -/
def readExponent (negative : Bool) (whole fraction : List Char) (cs : List Char) :
    Except Fault (Number × List Char) :=
  let (down, digits) := match cs with
    | '+' :: rest => (false, rest)
    | '-' :: rest => (true, rest)
    | rest => (false, rest)
  match digits with
  | [] => faultAt .endInValue []
  | c :: _ =>
    if !c.isDigit then faultAt .badNumber digits
    else match exponentDigits 0 digits with
      | .ok (n, rest) => floatNumber negative whole fraction (if down then -n else n) rest
      | .error rest =>
        if down || (whole ++ fraction).all (· == '0') then
          .ok (.float (.zero negative), rest.dropWhile Char.isDigit)
        else faultBefore .numberTooLarge rest

/-- An integer without point and exponent: it becomes a floating-point number if 64 bits do not hold
it, and so does the negative zero. -/
def wholeNumber (negative : Bool) (whole rest : List Char) : Except Fault (Number × List Char) :=
  let n : Int := if negative then -Decimal.ofDigits whole else Decimal.ofDigits whole
  if h : FitsWord n ∧ ¬(negative ∧ n = 0) then .ok (.integer n h.1, rest)
  else floatNumber negative whole [] 0 rest

/-- Reads what may follow the whole part of a number. -/
def afterWhole (negative : Bool) (whole : List Char) : List Char → Except Fault (Number × List Char)
  | '.' :: rest =>
    let fraction := rest.takeWhile Char.isDigit
    match fraction, rest.dropWhile Char.isDigit with
    | [], [] => faultAt .endInValue []
    | [], after => faultAt .badNumber after
    | _ :: _, c :: after =>
      if c = 'e' ∨ c = 'E' then readExponent negative whole fraction after
      else floatNumber negative whole fraction 0 (c :: after)
    | _ :: _, [] => floatNumber negative whole fraction 0 []
  | c :: rest =>
    if c = 'e' ∨ c = 'E' then readExponent negative whole [] rest
    else wholeNumber negative whole (c :: rest)
  | [] => wholeNumber negative whole []

/-- Reads a number after its sign. No digit may follow a zero that comes first. -/
def readNumber (negative : Bool) : List Char → Except Fault (Number × List Char)
  | [] => faultAt .endInValue []
  | '0' :: rest =>
    match rest with
    | c :: _ => if c.isDigit then faultAt .badNumber rest else afterWhole negative ['0'] rest
    | [] => afterWhole negative ['0'] []
  | c :: rest =>
    if c.isDigit then
      afterWhole negative (c :: rest.takeWhile Char.isDigit) (rest.dropWhile Char.isDigit)
    else faultAt .badNumber (c :: rest)

/-! ## Strings -/

/-- The value of a hexadecimal digit of either case. -/
def hexDigit? (c : Char) : Option Nat :=
  if c.isDigit then some (c.toNat - '0'.toNat)
  else if 'a' ≤ c ∧ c ≤ 'f' then some (c.toNat - 'a'.toNat + 10)
  else if 'A' ≤ c ∧ c ≤ 'F' then some (c.toNat - 'A'.toNat + 10)
  else none

/-- The code unit that four hexadecimal digits spell. -/
def codeUnit? (a b c d : Char) : Option Nat := do
  let w ← hexDigit? a
  let x ← hexDigit? b
  let y ← hexDigit? c
  let z ← hexDigit? d
  return ((w * 16 + x) * 16 + y) * 16 + z

/-- The fault of an escape whose next four bytes are not hexadecimal digits. -/
def badCodeUnit {α : Type} (cs : List Char) : Except Fault α :=
  if byteCount cs < 4 then faultAt .endInString []
  else .error ⟨.badEscape, byteCount cs - 4⟩

def isLeadingSurrogate (n : Nat) : Bool := 0xD800 ≤ n && n < 0xDC00

def isTrailingSurrogate (n : Nat) : Bool := 0xDC00 ≤ n && n < 0xE000

/-- The character of two surrogates. -/
def surrogatePair (leading trailing : Nat) : Char :=
  Char.ofNat ((leading - 0xD800) * 0x400 + (trailing - 0xDC00) + 0x10000)

/-- The character that a letter after a backslash stands for. -/
def escaped? : Char → Option Char
  | '"' => some '"'
  | '\\' => some '\\'
  | '/' => some '/'
  | 'b' => some '\x08'
  | 'f' => some '\x0c'
  | 'n' => some '\n'
  | 'r' => some '\r'
  | 't' => some '\t'
  | _ => none

/-- Puts a character before what was read. -/
def prepend (c : Char) :
    Except Fault (List Char × List Char) → Except Fault (List Char × List Char)
  | .ok (cs, rest) => .ok (c :: cs, rest)
  | .error fault => .error fault

/-- Reads the characters of a string up to its closing quote. -/
def stringRest : List Char → Except Fault (List Char × List Char)
  | [] => faultAt .endInString []
  | '"' :: rest => .ok ([], rest)
  | '\\' :: rest =>
    match rest with
    | [] => faultAt .endInString []
    | 'u' :: digits =>
      match digits with
      | a :: b :: c :: d :: after =>
        match codeUnit? a b c d with
        | none => badCodeUnit digits
        | some n =>
          if isTrailingSurrogate n then faultBefore .unpairedSurrogate after
          else if isLeadingSurrogate n then
            match after with
            | '\\' :: 'u' :: more =>
              match more with
              | e :: f :: g :: h :: final =>
                match codeUnit? e f g h with
                | none => badCodeUnit more
                | some m =>
                  if isTrailingSurrogate m then prepend (surrogatePair n m) (stringRest final)
                  else faultBefore .unpairedSurrogate final
              | _ => badCodeUnit more
            | '\\' :: c :: more => faultAt .unfinishedSurrogate (c :: more)
            | ['\\'] => faultAt .endInString []
            | c :: more => faultAt .unfinishedSurrogate (c :: more)
            | [] => faultAt .endInString []
          else prepend (Char.ofNat n) (stringRest after)
      | _ => badCodeUnit digits
    | c :: after =>
      match escaped? c with
      | some e => prepend e (stringRest after)
      | none => faultAt .badEscape (c :: after)
  | c :: rest =>
    if c < ' ' then faultAt .controlCharacter (c :: rest) else prepend c (stringRest rest)

/-! ## Values -/

/-- What reads one value. -/
abbrev ValueReader := List Char → Except Fault (Json × List Char)

/-- Reads elements from the first on, at most as many as `count`. -/
def moreElements (value : ValueReader) : Nat → List Char → Except Fault (List Json × List Char)
  | 0, cs => faultAt .endInList cs
  | count + 1, cs => do
    let (v, rest) ← value cs
    match skipBlank rest with
    | [] => faultAt .endInList []
    | ']' :: after => return ([v], after)
    | ',' :: after =>
      match skipBlank after with
      | [] => faultAt .endInValue []
      | ']' :: more => faultAt .trailingComma (']' :: more)
      | next => do
        let (vs, final) ← moreElements value count next
        return (v :: vs, final)
    | after => faultAt .noListEnd after

/-- Reads the elements of a list up to its bracket. There are no more of them than characters. -/
def readElements (value : ValueReader) (cs : List Char) : Except Fault (List Json × List Char) :=
  match skipBlank cs with
  | [] => faultAt .endInList []
  | ']' :: rest => .ok ([], rest)
  | rest => moreElements value rest.length rest

/-- Reads members from the first on, at most as many as `count`. -/
def moreMembers (value : ValueReader) :
    Nat → List Char → Except Fault (List (String × Json) × List Char)
  | 0, cs => faultAt .endInObject cs
  | count + 1, cs =>
    match cs with
    | '"' :: rest => do
      let (name, afterName) ← stringRest rest
      match skipBlank afterName with
      | [] => faultAt .endInObject []
      | ':' :: afterColon => do
        let (v, afterValue) ← value afterColon
        match skipBlank afterValue with
        | [] => faultAt .endInObject []
        | '}' :: final => return ([(String.ofList name, v)], final)
        | ',' :: afterComma =>
          match skipBlank afterComma with
          | [] => faultAt .endInValue []
          | '}' :: final => faultAt .trailingComma ('}' :: final)
          | next => do
            let (ms, final) ← moreMembers value count next
            return ((String.ofList name, v) :: ms, final)
        | after => faultAt .noObjectEnd after
      | after => faultAt .noColon after
    | _ => faultAt .keyNotString cs

/-- Reads the members of an object up to its brace. There are no more of them than characters. -/
def readMembers (value : ValueReader) (cs : List Char) :
    Except Fault (List (String × Json) × List Char) :=
  match skipBlank cs with
  | [] => faultAt .endInObject []
  | '}' :: rest => .ok ([], rest)
  | rest => moreMembers value rest.length rest

/-- Reads one value that holds at most `depth` containers one inside the other. -/
def readValue (depth : Nat) (cs : List Char) : Except Fault (Json × List Char) :=
  match skipBlank cs with
  | [] => faultAt .endInValue []
  | 'n' :: rest => readWord .null ['u', 'l', 'l'] rest
  | 't' :: rest => readWord (.bool true) ['r', 'u', 'e'] rest
  | 'f' :: rest => readWord (.bool false) ['a', 'l', 's', 'e'] rest
  | '-' :: rest => do
    let (n, after) ← readNumber true rest
    return (.number n, after)
  | '"' :: rest => do
    let (s, after) ← stringRest rest
    return (.string (String.ofList s), after)
  | '[' :: rest =>
    match depth with
    | 0 => faultAt .tooDeep ('[' :: rest)
    | inner + 1 => do
      let (xs, after) ← readElements (readValue inner) rest
      return (.array xs, after)
  | '{' :: rest =>
    match depth with
    | 0 => faultAt .tooDeep ('{' :: rest)
    | inner + 1 => do
      let (ms, after) ← readMembers (readValue inner) rest
      return (.object (Members.ofList ms), after)
  | c :: rest =>
    if c.isDigit then do
      let (n, after) ← readNumber false (c :: rest)
      return (.number n, after)
    else faultAt .noValue (c :: rest)

/-! ## Texts -/

/-- How many containers may be nested in a text. -/
def depthLimit : Nat := 127

/-- Reads all the characters as one value. -/
def readChars (cs : List Char) : Except Fault Json := do
  let (v, rest) ← readValue depthLimit cs
  match skipBlank rest with
  | [] => return v
  | after => faultAt .trailingCharacters after

/-- A line, counted from one, and the number of bytes read on it. -/
structure Position where
  line : Nat
  column : Nat
deriving DecidableEq, Repr

/-- The position `offset` bytes further on. -/
def Position.advance (p : Position) (offset : Nat) : List Char → Position
  | [] => p
  | c :: rest =>
    if offset = 0 then p
    else if c = '\n' then Position.advance ⟨p.line + 1, 0⟩ (offset - 1) rest
    else Position.advance ⟨p.line, p.column + min offset c.utf8Size⟩ (offset - c.utf8Size) rest

/-- Why a text is no value, and where that shows. -/
structure SyntaxError where
  cause : SyntaxCause
  position : Position
deriving DecidableEq, Repr

/-- The wording of a syntax error. -/
def SyntaxError.message (e : SyntaxError) : String :=
  Text.concat [e.cause.message, " at line ", toString e.position.line, " column ",
    toString e.position.column]

/-- Reads a text as one value. -/
def read (text : String) : Except SyntaxError Json :=
  let cs := text.toList
  match readChars cs with
  | .ok v => .ok v
  | .error fault =>
    .error ⟨fault.cause, Position.advance ⟨1, 0⟩ (byteCount cs - fault.unread) cs⟩

end StrictSchema.Json
