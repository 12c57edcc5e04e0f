import StrictSchema.Members
import StrictSchema.Number.Real
import StrictSchema.Number.Word
import StrictSchema.Toml.Moment

/-!
# TOML values

A `Toml` value is a text, a number, a truth value, a date or time, a list or a table.
-/

namespace StrictSchema

/-- A value of a TOML document. -/
inductive Toml where
  | text (s : String)
  | integer (n : Int)
  | real (x : Real64)
  | bool (b : Bool)
  | moment (m : Toml.Moment)
  | list (elements : List Toml)
  | table (entries : List (String × Toml))

end StrictSchema
