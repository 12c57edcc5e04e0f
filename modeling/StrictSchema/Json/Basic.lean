import StrictSchema.Members
import StrictSchema.Number.Decimal
import StrictSchema.Number.Word

/-!
# JSON values

A number is an integer of 64 bits, with or without a sign, or a finite binary64 number (`Number`).
Members of an object keep their order. `Json.equiv` compares values as the format means them: the
order of members does not count, an integer is no floating-point number, and the two zeros are one.
-/

namespace StrictSchema

/-- A number of a document. -/
inductive Number where
  | integer (n : Int) (fits : FitsWord n)
  | float (x : Binary64)
deriving DecidableEq

namespace Number

/-- The integer that an unsigned word stands for. -/
def ofWord (n : UInt64) : Number :=
  .integer n.toNat ⟨by omega, by have := n.toNat_lt; simp only [greatestWord]; omega⟩

/-- Equality of values. -/
def equiv : Number → Number → Bool
  | .integer m _, .integer n _ => m == n
  | .float x, .float y => x.sameValue y
  | _, _ => false

end Number

/-- A JSON value. -/
inductive Json where
  | null
  | bool (b : Bool)
  | number (n : Number)
  | string (s : String)
  | array (elements : List Json)
  | object (members : List (String × Json))
deriving Inhabited

namespace Json

/-- A list of strings as a value. -/
def strings (texts : List String) : Json := .array (texts.map .string)

mutual

/-- Equality of values, whatever the order of members. -/
def equiv : Json → Json → Bool
  | .null, .null => true
  | .bool a, .bool b => a == b
  | .number a, .number b => a.equiv b
  | .string a, .string b => a == b
  | .array xs, .array ys => equivElements xs ys
  | .object xs, .object ys => xs.length == ys.length && equivMembers xs ys
  | _, _ => false
termination_by structural x => x

/-- Equality element by element. -/
def equivElements : List Json → List Json → Bool
  | [], [] => true
  | x :: xs, y :: ys => equiv x y && equivElements xs ys
  | _, _ => false
termination_by structural xs => xs

/-- Whether each of the members has its equal under the same name among `ys`. -/
def equivMembers : List (String × Json) → List (String × Json) → Bool
  | [], _ => true
  | (name, x) :: xs, ys =>
    (match Members.find? name ys with
      | some y => equiv x y
      | none => false) && equivMembers xs ys
termination_by structural xs => xs

end

end Json

end StrictSchema
