import StrictSchema.Json.Printer
import StrictSchema.Text.Concat
import StrictSchema.Text.Quoted

/-!
# Decoding JSON values

A value that does not have the form wanted of it is a `DecodeError`: what was found (`Found`) and
what was wanted (`Wanted`). This file holds the errors with their wording and the decoders of single
values; `Json.nullable` takes a null for an absent value, and `Json.decodeEach` decodes a list
element by element up to the first error.
-/

namespace StrictSchema

/-! ## Errors -/

/-- What kind of value was found. -/
inductive Found where
  | null
  | bool (b : Bool)
  | number (n : Number)
  | string (s : String)
  | list
  | map
deriving DecidableEq

/-- The wording of what was found. -/
def Found.message : Found → String
  | .null => "null"
  | .bool b => Text.concat ["boolean `", toString b, "`"]
  | .number (.integer n _) => Text.concat ["integer `", toString n, "`"]
  | .number (.float x) =>
    Text.concat ["floating point `", String.ofList (x.text Number.layout), "`"]
  | .string s => Text.concat ["string ", Text.quoted s]
  | .list => "sequence"
  | .map => "map"

/-- What a value is found to be. -/
def Json.found : Json → Found
  | .null => .null
  | .bool b => .bool b
  | .number n => .number n
  | .string s => .string s
  | .array _ => .list
  | .object _ => .map

/-- What form was wanted. -/
inductive Wanted where
  | string
  | bool
  | word
  | number
  | list
  | map
  | unit
  | record (name : String)
  | choice
  | singleMember
  | tagged (name : String)
  | tag
deriving DecidableEq

/-- The wording of what was wanted. -/
def Wanted.message : Wanted → String
  | .string => "a string"
  | .bool => "a boolean"
  | .word => "u64"
  | .number => "a JSON number"
  | .list => "a sequence"
  | .map => "a map"
  | .unit => "unit"
  | .record name => Text.concat ["struct ", name]
  | .choice => "string or map"
  | .singleMember => "map with a single key"
  | .tagged name => Text.concat ["internally tagged enum ", name]
  | .tag => "variant identifier"

/-- How many elements were wanted. -/
inductive WantedLength where
  | fields (record : String) (count : Nat)
  | content (record : String) (count : Nat)
  | fewer
  | exactly (count : Nat)
deriving DecidableEq

/-- A count of elements. -/
def elementCount (n : Nat) : String :=
  if n = 1 then "1 element" else Text.concat [toString n, " elements"]

/-- The wording of the number of elements that was wanted. -/
def WantedLength.message : WantedLength → String
  | .fields record count => Text.concat ["struct ", record, " with ", elementCount count]
  | .content record count =>
    Text.concat ["struct variant ", record, " with ", elementCount count]
  | .fewer => "fewer elements in array"
  | .exactly count => Text.concat [elementCount count, " in sequence"]

/-- Why a value does not decode. -/
inductive DecodeError where
  | wrongType (found : Found) (wanted : Wanted)
  | wrongValue (found : Found) (wanted : Wanted)
  | wrongLength (found : Nat) (wanted : WantedLength)
  | missingField (name : String)
  | unknownName (name : String) (known : List String)
  | noForm (name : String)
deriving DecidableEq

/-- The wording of an error. -/
def DecodeError.message : DecodeError → String
  | .wrongType found wanted =>
    Text.concat ["invalid type: ", found.message, ", expected ", wanted.message]
  | .wrongValue found wanted =>
    Text.concat ["invalid value: ", found.message, ", expected ", wanted.message]
  | .wrongLength found wanted =>
    Text.concat ["invalid length ", toString found, ", expected ", wanted.message]
  | .missingField name => Text.concat ["missing field `", name, "`"]
  | .unknownName name known =>
    Text.concat ["unknown variant `", name, "`, expected ",
      " or ".intercalate (known.map fun k => Text.concat ["`", k, "`"])]
  | .noForm name => Text.concat ["data did not match any variant of untagged enum ", name]

/-! ## Single values -/

namespace Json

/-- The result of decoding. -/
abbrev Decoded (α : Type) := Except DecodeError α

variable {α : Type}

/-- The error of a value that has another form than wanted. -/
def unexpected (v : Json) (wanted : Wanted) : Decoded α := .error (.wrongType v.found wanted)

def decodeString : Json → Decoded String
  | .string s => .ok s
  | v => v.unexpected .string

def decodeBool : Json → Decoded Bool
  | .bool b => .ok b
  | v => v.unexpected .bool

def decodeNumber : Json → Decoded Number
  | .number n => .ok n
  | v => v.unexpected .number

/-- An integer that an unsigned word holds. -/
def decodeWord : Json → Decoded UInt64
  | .number (.integer n fits) =>
    if n < 0 then .error (.wrongValue (.number (.integer n fits)) .word)
    else .ok (UInt64.ofNat n.toNat)
  | v => v.unexpected .word

/-- Decodes each element in order, up to the first error. -/
def decodeEach (decode : Json → Decoded α) : List Json → Decoded (List α)
  | [] => .ok []
  | v :: vs => do
    let x ← decode v
    let xs ← decodeEach decode vs
    return x :: xs

def decodeStrings : Json → Decoded (List String)
  | .array vs => decodeEach decodeString vs
  | v => v.unexpected .list

def decodeList : Json → Decoded (List Json)
  | .array vs => .ok vs
  | v => v.unexpected .list

/-- A null is an absent value. -/
def nullable (decode : Json → Decoded α) : Json → Decoded (Option α)
  | .null => .ok none
  | v => some <$> decode v

end Json

end StrictSchema
