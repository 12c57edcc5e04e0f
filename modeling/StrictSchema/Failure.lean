import StrictSchema.Json.Document
import StrictSchema.Module.Version
import StrictSchema.Settings.Error

/-!
# Failures

`Failure` is the sum of what can go wrong between a document and a request. `Failure.message` words
it on its own. `Failure.report` is the text for a reader of the whole story, in which the cause of a
failure stands once more behind the failure.
-/

namespace StrictSchema

/-- What an answer is, where an object was expected. -/
def Found.kind : Found → String
  | .null => "null"
  | .bool _ => "a boolean"
  | .number _ => "a number"
  | .string _ => "a string"
  | .list => "an array"
  | .map => "an object"

/-- Why an operation of this library fails. -/
inductive Failure where
  | unsupportedSchema (module : String)
  | invalidModule (value : String)
  | invalidCompletion (found : Found)
  | files (error : FileError)
  | document (error : DocumentError)
  | version (error : VersionError)
  | settings (error : SettingsError)
deriving DecidableEq

namespace Failure

/-- The wording of a failure. -/
def message : Failure → String
  | .unsupportedSchema module =>
    Text.concat ["Schema of module ", module, " cannot be used for AI generation"]
  | .invalidModule value => Text.concat ["Invalid module reference: ", value]
  | .invalidCompletion found =>
    Text.concat ["Invalid completion: expected a JSON object, got ", found.kind]
  | .files error => Text.concat ["IO error: ", error.message]
  | .document error => Text.concat ["JSON error: ", error.message]
  | .version error => Text.concat ["Semver error: ", error.message]
  | .settings error => Text.concat ["Config error: ", error.message]

/-- The wording of what caused a failure. -/
def cause? : Failure → Option String
  | .unsupportedSchema _ => none
  | .invalidModule _ => none
  | .invalidCompletion _ => none
  | .files error => some error.message
  | .document error => some error.message
  | .version error => some error.message
  | .settings error => some error.message

/-- A failure followed by its cause. -/
def report (f : Failure) : String :=
  match f.cause? with
  | some cause => f.message ++ ": " ++ cause
  | none => f.message

end Failure

end StrictSchema
