import StrictSchema.Failure

/-!
# Command errors

A command that cannot be carried out ends with a `CommandError`, which says in what the command was
occupied when it failed.
-/

namespace StrictSchema

/-- Why a command ends early. -/
inductive CommandError where
  | loading (error : SettingsError)
  | reading (path : String) (error : FileError)
  | parsing (path : String) (error : Json.SyntaxError)
  | walking (path : String) (error : FileError)
  | writing (error : FileError)
  | failed (failure : Failure)
deriving DecidableEq

/-- The text of a command error. -/
def CommandError.report : CommandError → String
  | .loading error => Text.concat ["loading configuration: ", (Failure.settings error).report]
  | .reading path error => Text.concat ["reading ", path, ": ", error.message]
  | .parsing path error => Text.concat ["parsing ", path, ": ", error.message]
  | .walking path error =>
    Text.concat ["IO error for operation on ", path, ": ", error.message, ": ", error.message]
  | .writing error => error.message
  | .failed failure => failure.report

end StrictSchema
