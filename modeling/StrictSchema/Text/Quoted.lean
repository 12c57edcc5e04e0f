import StrictSchema.Text.Printable

/-!
# Quoted text

`quoted` shows a text between double quotes and `quotedChar` a character between single ones. The
quote in use and the backslash take a backslash, four control characters have a letter, and any
other character that is not printable is written by its code point (`escape`).
-/

namespace StrictSchema.Text

/-- A character as it stands between quotes of the given kind. -/
def escape (quote c : Char) : List Char :=
  if c = '\\' ∨ c = quote then ['\\', c]
  else if c = '\n' then ['\\', 'n']
  else if c = '\r' then ['\\', 'r']
  else if c = '\t' then ['\\', 't']
  else if c = '\x00' then ['\\', '0']
  else if isPrintable c then [c]
  else ['\\', 'u', '\x7b'] ++ Nat.toDigits 16 c.toNat ++ ['\x7d']

/-- The text between double quotes. -/
def quoted (s : String) : String :=
  String.ofList ('"' :: s.toList.flatMap (escape '"') ++ ['"'])

/-- The character between single quotes. -/
def quotedChar (c : Char) : String :=
  String.ofList ('\'' :: escape '\'' c ++ ['\''])

end StrictSchema.Text
