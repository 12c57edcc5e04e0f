import StrictSchema.Text.Split
import StrictSchema.Settings.Tree

/-!
# Settings in the environment

A variable whose name starts with the mark of this program, in any case, gives a setting: the rest
of its name is the key, with a double underscore for each dot. Its text becomes the plainest value
that it can be read as (`Scalar.ofText`): a truth value, an integer, a floating-point number, or
else a text.
-/

namespace StrictSchema

/-- What the names of variables with settings start with. -/
def variableMark : String := "narrative_schemas__"

/-- The text with a dot for each double underscore. -/
def dotted : List Char → List Char
  | '_' :: '_' :: cs => '.' :: dotted cs
  | c :: cs => c :: dotted cs
  | [] => []

/-- The place of the setting that a variable gives. -/
def keyOfVariable? (name : String) : Option KeyPath :=
  let cs := (Text.lowerCase name).toList
  let mark := variableMark.toList
  if mark.isPrefixOf cs then
    some (KeyPath.ofKey (String.ofList (dotted (cs.drop mark.length))))
  else none

/-! ## Values -/

/-- A sign and what follows it. -/
def Scalar.signed : List Char → Bool × List Char
  | '+' :: cs => (false, cs)
  | '-' :: cs => (true, cs)
  | cs => (false, cs)

/-- An integer of 64 bits with a sign. -/
def Scalar.integer? (cs : List Char) : Option Int :=
  let (negative, digits) := signed cs
  if digits.isEmpty || !digits.all Char.isDigit then none
  else
    let n : Int := if negative then -Decimal.ofDigits digits else Decimal.ofDigits digits
    if FitsSigned n then some n else none

/-- An exponent after its letter; without the letter it is zero. -/
def Scalar.exponent? : List Char → Option Int
  | [] => some 0
  | _ :: cs =>
    let (down, digits) := signed cs
    if digits.isEmpty || !digits.all Char.isDigit then none
    else some (if down then -Decimal.ofDigits digits else Decimal.ofDigits digits)

/-- A floating-point number: digits with at most one point among or around them and an exponent, or
one of the words for what is not finite. -/
def Scalar.real? (cs : List Char) : Option Real64 :=
  let (negative, body) := signed cs
  let word := String.ofList (body.map Char.toLower)
  if word = "inf" ∨ word = "infinity" then some (.infinite negative)
  else if word = "nan" then some .nan
  else
    let isMark (c : Char) : Bool := c = 'e' || c = 'E'
    let mantissa := body.takeWhile (!isMark ·)
    let (whole, fraction) := (Text.cut '.' mantissa).getD (mantissa, [])
    let digits := whole ++ fraction
    if digits.isEmpty || !digits.all Char.isDigit then none
    else (exponent? (body.dropWhile (!isMark ·))).map fun e =>
      .ofDecimal negative (Decimal.ofDigits digits) (e - fraction.length)

/-- The value that the text of a variable stands for. -/
def Scalar.ofText (text : String) : Scalar :=
  let lower := Text.lowerCase text
  let cs := text.toList
  if lower = "true" then .bool true
  else if lower = "false" then .bool false
  else match integer? cs with
    | some n => .integer n
    | none =>
      match real? cs with
      | some x => .real x
      | none => .text text

end StrictSchema
