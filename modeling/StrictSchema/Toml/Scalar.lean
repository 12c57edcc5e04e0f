import StrictSchema.Text.Split
import StrictSchema.Toml.Value

/-!
# TOML words and texts

A value that is neither quoted nor bracketed nor a date or time is a run of letters, digits, signs,
dots and underscores, and the whole run has to be a truth value or a number (`Toml.ofWord?`).
Quoted texts come in four forms: between double quotes with escapes, between single quotes as they
are, and either of these between three quotes over several lines (`Toml.quoted?`). A reading step
returns what it read with the characters that are left, or nothing where the document is not well
formed.
-/

namespace StrictSchema.Toml

/-! ## Numbers -/

/-- The digits of a number with single underscores between them, without the underscores. -/
def digitGroups? (isDigit : Char → Bool) (cs : List Char) : Option (List Char) :=
  let groups := Text.split '_' cs
  if groups.all fun g => !g.isEmpty && g.all isDigit then some groups.flatten else none

/-- A decimal number without a sign. Zero is the only one that starts with a zero. -/
def decimalDigits? (cs : List Char) : Option (List Char) := do
  let digits ← digitGroups? Char.isDigit cs
  if cs.head? = some '0' ∧ 1 < cs.length then none else some digits

/-- The value of a digit of a base up to sixteen. -/
def digitValue (c : Char) : Nat :=
  if c.isDigit then c.toNat - '0'.toNat else c.toLower.toNat - 'a'.toNat + 10

/-- Whether a character is a digit of a base up to sixteen. -/
def isDigitOf (base : Nat) (c : Char) : Bool :=
  (c.isDigit || ('a' ≤ c.toLower && c.toLower ≤ 'f')) && digitValue c < base

/-- The number that digits of a base spell. -/
def valueOf (base : Nat) (digits : List Char) : Nat :=
  digits.foldl (fun n c => base * n + digitValue c) 0

/-- A sign and what follows it. -/
def signed : List Char → Bool × List Char
  | '+' :: cs => (false, cs)
  | '-' :: cs => (true, cs)
  | cs => (false, cs)

/-- An integer of 64 bits with a sign. -/
def inRange? (n : Int) : Option Int := if FitsSigned n then some n else none

/-- An integer: decimal with an optional sign, or in base sixteen, eight or two after its mark. -/
def integer? (cs : List Char) : Option Int :=
  match cs with
  | '0' :: 'x' :: digits =>
    (digitGroups? (isDigitOf 16) digits).bind fun ds => inRange? (valueOf 16 ds)
  | '0' :: 'o' :: digits =>
    (digitGroups? (isDigitOf 8) digits).bind fun ds => inRange? (valueOf 8 ds)
  | '0' :: 'b' :: digits =>
    (digitGroups? (isDigitOf 2) digits).bind fun ds => inRange? (valueOf 2 ds)
  | _ =>
    let (negative, digits) := signed cs
    (decimalDigits? digits).bind fun ds =>
      inRange? (if negative then -Decimal.ofDigits ds else Decimal.ofDigits ds)

/-- The part of a number before its exponent, as digits before and after the point. -/
def mantissa? (cs : List Char) : Option (List Char × Option (List Char)) := do
  match Text.cut '.' cs with
  | some (whole, fraction) =>
    return (← decimalDigits? whole, some (← digitGroups? Char.isDigit fraction))
  | none => return (← decimalDigits? cs, none)

/-- A floating-point number with a point, an exponent or both; it must not be too large. -/
def real? (cs : List Char) : Option Real64 :=
  let (negative, body) := signed cs
  if body = ['i', 'n', 'f'] then some (.infinite negative)
  else if body = ['n', 'a', 'n'] then some .nan
  else do
    let isMark (c : Char) : Bool := c = 'e' || c = 'E'
    let (whole, fraction?) ← mantissa? (body.takeWhile (!isMark ·))
    let fraction := fraction?.getD []
    let x ← match body.dropWhile (!isMark ·) with
      | [] =>
        if fraction?.isSome then
          some (Real64.ofDecimal negative (Decimal.ofDigits (whole ++ fraction)) (-fraction.length))
        else none
      | _ :: exponent =>
        let (down, digits) := signed exponent
        (digitGroups? Char.isDigit digits).map fun ds =>
          let e : Int := Decimal.ofDigits ds
          Real64.ofDecimal negative (Decimal.ofDigits (whole ++ fraction))
            ((if down then -e else e) - fraction.length)
    if x = .infinite false then none else some x

/-- Characters of a word. -/
def isWordChar (c : Char) : Bool :=
  c.isAlphanum || c = '+' || c = '-' || c = '.' || c = '_'

/-- The value that a word stands for. -/
def ofWord? (cs : List Char) : Option Toml :=
  if cs = ['t', 'r', 'u', 'e'] then some (.bool true)
  else if cs = ['f', 'a', 'l', 's', 'e'] then some (.bool false)
  else match integer? cs with
    | some n => some (.integer n)
    | none => (real? cs).map .real

/-! ## Quoted texts -/

/-- Characters that no document holds as they are. -/
def isForbidden (c : Char) : Bool := (c < ' ' && c ≠ '\t') || c = '\x7f'

/-- Blanks within a line. -/
def isBlank (c : Char) : Bool := c = ' ' || c = '\t'

/-- What is left after blanks. -/
def skipBlank (cs : List Char) : List Char := cs.dropWhile isBlank

/-- What is left after a line end, if there is one. -/
def lineEnd? : List Char → Option (List Char)
  | '\n' :: cs => some cs
  | '\r' :: '\n' :: cs => some cs
  | _ => none

/-- The character that a letter after a backslash stands for. -/
def escaped? : Char → Option Char
  | 'b' => some '\x08'
  | 't' => some '\t'
  | 'n' => some '\n'
  | 'f' => some '\x0c'
  | 'r' => some '\r'
  | '"' => some '"'
  | '\\' => some '\\'
  | _ => none

/-- The character of a code point in base sixteen. -/
def ofCodePoint? (digits : List Char) : Option Char :=
  if digits.all (isDigitOf 16) then
    let n := valueOf 16 digits
    if n < 0xD800 ∨ (0xE000 ≤ n ∧ n < 0x110000) then some (Char.ofNat n) else none
  else none

/-- A text between double quotes, after the first of them. -/
def basic? : List Char → Option (List Char × List Char)
  | [] => none
  | '"' :: rest => some ([], rest)
  | '\\' :: 'u' :: a :: b :: c :: d :: rest => do
    let e ← ofCodePoint? [a, b, c, d]
    (basic? rest).map fun (cs, rest) => (e :: cs, rest)
  | '\\' :: 'U' :: a :: b :: c :: d :: e :: f :: g :: h :: rest => do
    let e ← ofCodePoint? [a, b, c, d, e, f, g, h]
    (basic? rest).map fun (cs, rest) => (e :: cs, rest)
  | '\\' :: c :: rest => do
    let e ← escaped? c
    (basic? rest).map fun (cs, rest) => (e :: cs, rest)
  | c :: rest =>
    if isForbidden c then none else (basic? rest).map fun (cs, rest) => (c :: cs, rest)

/-- A text between single quotes, after the first of them. -/
def literal? : List Char → Option (List Char × List Char)
  | [] => none
  | '\'' :: rest => some ([], rest)
  | c :: rest =>
    if isForbidden c then none else (literal? rest).map fun (cs, rest) => (c :: cs, rest)

/-! ## Texts over several lines -/

/-- What stands at a run of three or more quotes: the quotes that belong to the text, at most two,
and what is left after the closing three. -/
def closing? (quote : Char) (cs : List Char) : Option (List Char × List Char) :=
  let run := min 5 (cs.takeWhile (· = quote)).length
  if run < 3 then none else some (List.replicate (run - 3) quote, cs.drop run)

/-- The inside of a text up to its closing quotes, as it is written. With escapes, the character
after a backslash closes nothing. -/
def inside? (quote : Char) (escapes : Bool) : List Char → Option (List Char × List Char)
  | [] => none
  | c :: rest =>
    match closing? quote (c :: rest), rest with
    | some found, _ => some found
    | none, [] => none
    | none, d :: after =>
      if escapes && c = '\\' then (inside? quote escapes after).map fun (cs, r) => (c :: d :: cs, r)
      else (inside? quote escapes (d :: after)).map fun (cs, r) => (c :: cs, r)

/-- The inside of a text with a line feed for each line end. -/
def lineFeeds? : List Char → Option (List Char)
  | [] => some []
  | '\n' :: rest => (lineFeeds? rest).map ('\n' :: ·)
  | '\r' :: '\n' :: rest => (lineFeeds? rest).map ('\n' :: ·)
  | c :: rest => if isForbidden c then none else (lineFeeds? rest).map (c :: ·)

/-- The inside of a text without its escapes. A backslash at the end of a line takes away all blanks
and line ends that follow (`skipping`). -/
def unescape? (skipping : Bool) : List Char → Option (List Char)
  | [] => some []
  | ['\\'] => none
  | '\\' :: 'u' :: a :: b :: c :: d :: rest =>
    (ofCodePoint? [a, b, c, d]).bind fun e => (unescape? false rest).map (e :: ·)
  | '\\' :: 'U' :: a :: b :: c :: d :: e :: f :: g :: h :: rest =>
    (ofCodePoint? [a, b, c, d, e, f, g, h]).bind fun e => (unescape? false rest).map (e :: ·)
  | '\\' :: c :: rest =>
    match escaped? c with
    | some e => (unescape? false rest).map (e :: ·)
    | none => if (skipBlank (c :: rest)).head? = some '\n' then unescape? true (c :: rest) else none
  | c :: rest =>
    if skipping && (isBlank c || c = '\n') then unescape? true rest
    else (unescape? false rest).map (c :: ·)

/-- A text between three quotes each, after the first three. Line ends are read as line feeds. -/
def lines? (quote : Char) (escapes : Bool) (cs : List Char) : Option (List Char × List Char) := do
  let (raw, rest) ← inside? quote escapes cs
  let fed ← lineFeeds? raw
  let text ← if escapes then unescape? false fed else some fed
  some (text, rest)

/-- A text without the line end that comes first. -/
def afterLineEnd (cs : List Char) : List Char := (lineEnd? cs).getD cs

/-- A quoted text of any form. -/
def quoted? : List Char → Option (List Char × List Char)
  | '"' :: '"' :: '"' :: rest => lines? '"' true (afterLineEnd rest)
  | '\'' :: '\'' :: '\'' :: rest => lines? '\'' false (afterLineEnd rest)
  | '"' :: rest => basic? rest
  | '\'' :: rest => literal? rest
  | _ => none

end StrictSchema.Toml
