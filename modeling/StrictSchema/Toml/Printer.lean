import StrictSchema.Toml.Value

/-!
# TOML texts in writing

A text is written in the plainest of the four quoted forms that can hold it (`Toml.TextForm.of`):
between double quotes if it needs no escape, else between single quotes, else between three of
either, and with escapes if nothing else will do.
-/

namespace StrictSchema.Toml

/-- The quoted forms of a text. -/
inductive TextForm where
  | basic
  | literal
  | basicLines
  | literalLines
deriving DecidableEq, Repr

/-- Control characters other than the tab and the line feed. -/
def isControl (c : Char) : Bool := (c < ' ' && c ≠ '\t' && c ≠ '\n') || c = '\x7f'

/-- Whether a text holds `count` of the character one after the other. -/
def hasRun (c : Char) (count : Nat) : List Char → Bool
  | [] => count = 0
  | d :: rest => (List.replicate count c).isPrefixOf (d :: rest) || hasRun c count rest

/-- The form in which a text is written. -/
def TextForm.of (cs : List Char) : TextForm :=
  let control := cs.any isControl
  let holds (c : Char) : Bool := cs.contains c
  if !control && !holds '\\' && !holds '"' && !holds '\n' then .basic
  else if !control && !holds '\'' && !holds '\n' then .literal
  else if !control && !holds '\\' && !hasRun '"' 3 cs then .basicLines
  else if !control && !hasRun '\'' 3 cs then .literalLines
  else if holds '\n' then .basicLines
  else .basic

/-- A character between double quotes; `quote` and `lineFeed` are what these two become. -/
def escape (quote lineFeed : List Char) (c : Char) : List Char :=
  if c = '"' then quote
  else if c = '\n' then lineFeed
  else if c = '\\' then ['\\', '\\']
  else if c = '\x08' then ['\\', 'b']
  else if c = '\t' then ['\\', 't']
  else if c = '\x0c' then ['\\', 'f']
  else if c = '\r' then ['\\', 'r']
  else if isControl c then
    ['\\', 'u', '0', '0', (Nat.digitChar (c.toNat / 16)).toUpper,
      (Nat.digitChar (c.toNat % 16)).toUpper]
  else [c]

/-- The inside of a text over several lines, after `quotes` quotes in a row. Every third is
escaped. -/
def escapeLines (quotes : Nat) : List Char → List Char
  | [] => []
  | c :: rest =>
    if c = '"' then
      if quotes = 2 then ['\\', '"'] ++ escapeLines 0 rest
      else '"' :: escapeLines (quotes + 1) rest
    else escape ['"'] ['\n'] c ++ escapeLines 0 rest

/-- A text as it is written. -/
def textChars (cs : List Char) : List Char :=
  let opening := if cs.contains '\n' then ['\n'] else []
  match TextForm.of cs with
  | .basic => '"' :: cs.flatMap (escape ['\\', '"'] ['\\', 'n']) ++ ['"']
  | .literal => '\'' :: cs ++ ['\'']
  | .basicLines => ['"', '"', '"'] ++ opening ++ escapeLines 0 cs ++ ['"', '"', '"']
  | .literalLines => ['\'', '\'', '\''] ++ opening ++ cs ++ ['\'', '\'', '\'']

/-- The lines of a list of texts: one line for at most one, and else one more for each. -/
def listChars : List (List Char) → List Char
  | [] => ['[', ']']
  | [only] => '[' :: only ++ [']']
  | texts =>
    ['[', '\n'] ++ texts.flatMap (fun cs => [' ', ' ', ' ', ' '] ++ cs ++ [',', '\n']) ++ [']']

end StrictSchema.Toml
