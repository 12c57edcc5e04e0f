import StrictSchema.Json.Basic

/-!
# JSON text output

`Json.render format v` is the text of a value, either without any blank (`Format.compact`) or with
each element and member on a line of its own, two spaces further in than its container
(`Format.pretty`). A floating-point number is written by its shortest decimal, with the power of ten
apart when the first digit is far from the point (`Number.layout`).
-/

namespace StrictSchema

/-- Floating-point numbers are positional from `0.00001` to below `10 ^ 16`, always with a point; a
tie between two decimals goes to the even one. -/
def Number.layout : Binary64.Layout := ⟨some (-5, 15), true, .even⟩

/-- The text of a number. -/
def Number.chars : Number → List Char
  | .integer n _ => if n < 0 then '-' :: Decimal.digitsOf n.natAbs else Decimal.digitsOf n.natAbs
  | .float x => x.text Number.layout

namespace Json

/-- How the parts of a container are set out. -/
inductive Format where
  | pretty
  | compact
deriving DecidableEq, Repr

/-- What stands before a part at the given depth. -/
def Format.lineBreak : Format → Nat → List Char
  | .pretty, depth => '\n' :: List.replicate (2 * depth) ' '
  | .compact, _ => []

/-- What stands between a name and its value. -/
def Format.colon : Format → List Char
  | .pretty => [':', ' ']
  | .compact => [':']

/-- A character as it stands in a string: quotes, backslashes and control characters are escaped. -/
def escape (c : Char) : List Char :=
  if c = '"' then ['\\', '"']
  else if c = '\\' then ['\\', '\\']
  else if c = '\x08' then ['\\', 'b']
  else if c = '\x0c' then ['\\', 'f']
  else if c = '\n' then ['\\', 'n']
  else if c = '\r' then ['\\', 'r']
  else if c = '\t' then ['\\', 't']
  else if c < ' ' then
    ['\\', 'u', '0', '0', Nat.digitChar (c.toNat / 16), Nat.digitChar (c.toNat % 16)]
  else [c]

/-- The text of a string value. -/
def stringChars (s : String) : List Char :=
  '"' :: s.toList.flatMap escape ++ ['"']

/-- The parts between two brackets, each after a line break and all but the last before a comma. -/
def enclose (format : Format) (depth : Nat) (left right : Char) : List (List Char) → List Char
  | [] => [left, right]
  | part :: parts =>
    left :: format.lineBreak (depth + 1) ++ part ++
      parts.flatMap (fun p => ',' :: format.lineBreak (depth + 1) ++ p) ++
      format.lineBreak depth ++ [right]

mutual

/-- The text of a value whose first line stands at the given depth. -/
def chars (format : Format) (depth : Nat) : Json → List Char
  | .null => ['n', 'u', 'l', 'l']
  | .bool true => ['t', 'r', 'u', 'e']
  | .bool false => ['f', 'a', 'l', 's', 'e']
  | .number n => n.chars
  | .string s => stringChars s
  | .array xs => enclose format depth '[' ']' (elementChars format (depth + 1) xs)
  | .object ms => enclose format depth '{' '}' (memberChars format (depth + 1) ms)
termination_by structural x => x

/-- The texts of the elements of a list. -/
def elementChars (format : Format) (depth : Nat) : List Json → List (List Char)
  | [] => []
  | x :: xs => chars format depth x :: elementChars format depth xs
termination_by structural xs => xs

/-- The texts of the members of an object. -/
def memberChars (format : Format) (depth : Nat) : List (String × Json) → List (List Char)
  | [] => []
  | (name, x) :: ms =>
    (stringChars name ++ format.colon ++ chars format depth x) :: memberChars format depth ms
termination_by structural ms => ms

end

/-- The text of a value. -/
def render (format : Format) (v : Json) : String := String.ofList (v.chars format 0)

/-- The text of a value without any blank. -/
def compact (v : Json) : String := v.render .compact

end Json

end StrictSchema
