import StrictSchema.Json.Reader
import StrictSchema.Json.Decode

/-!
# Documents

A document is a text that is read as a JSON value and then decoded (`Json.decodeText`). It fails at
the first of the two that fails, with a `DocumentError`; decoding starts only after the whole text
has been read.
-/

namespace StrictSchema

/-- Why a text does not decode. -/
inductive DocumentError where
  | malformed (error : Json.SyntaxError)
  | mismatched (error : DecodeError)
deriving DecidableEq

/-- The wording of a document error. -/
def DocumentError.message : DocumentError → String
  | .malformed error => error.message
  | .mismatched error => error.message

namespace Json

/-- Reads a text as a document without decoding it. -/
def readText (text : String) : Except DocumentError Json := (read text).mapError .malformed

/-- Reads a text and decodes the value. -/
def decodeText {α : Type} (decode : Json → Decoded α) (text : String) : Except DocumentError α := do
  let v ← readText text
  (decode v).mapError .mismatched

end Json

end StrictSchema
