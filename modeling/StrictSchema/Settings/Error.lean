import StrictSchema.Text.Concat
import StrictSchema.Text.Quoted
import StrictSchema.Files.Tree
import StrictSchema.Settings.Tree

/-!
# Setting errors

Settings fail to load if a file that is asked for is not there, is of another format, cannot be read
or is not well formed, or if a value is not of the kind that its setting needs. A value that cannot
be converted is reported with the place and the origin of the setting.
-/

namespace StrictSchema

/-- Floating-point numbers are written out in full, whole ones with a point; a tie between two
decimals goes to the greater one. -/
def Scalar.layout : Binary64.Layout := ⟨none, true, .up⟩

/-- What kind of setting was found. -/
inductive FoundSetting where
  | absent
  | scalar (value : Scalar)
  | list
  | table
deriving DecidableEq

/-- The wording of what was found. -/
def FoundSetting.message : FoundSetting → String
  | .absent => "unit value"
  | .scalar (.bool b) => Text.concat ["boolean `", toString b, "`"]
  | .scalar (.integer n) => Text.concat ["integer `", toString n, "`"]
  | .scalar (.real x) =>
    Text.concat ["floating point `", String.ofList (x.text Scalar.layout), "`"]
  | .scalar (.text s) => Text.concat ["string ", Text.quoted s]
  | .list => "sequence"
  | .table => "map"

/-- What a setting is found to be. -/
def SettingTree.found : SettingTree → FoundSetting
  | .absent => .absent
  | .scalar _ value => .scalar value
  | .list _ _ => .list
  | .table _ _ => .table

/-- The origin of a setting. -/
def SettingTree.origin? : SettingTree → Option Origin
  | .absent => none
  | .scalar origin _ => some origin
  | .list origin _ => origin
  | .table origin _ => origin

/-- What kind of setting was wanted. -/
inductive WantedSetting where
  | text
  | bool
  | list
  | record (name : String)
deriving DecidableEq

/-- The wording of what was wanted. -/
def WantedSetting.message : WantedSetting → String
  | .text => "a string"
  | .bool => "a boolean"
  | .list => "a sequence"
  | .record name => Text.concat ["struct ", name]

/-- Why settings do not load. -/
inductive SettingsError where
  | notFound (path : String)
  | unknownFormat (path : String)
  | unreadable (error : FileError)
  | malformed (path : String)
  | notConvertible (found : FoundSetting) (wanted : WantedSetting) (key : KeyPath)
      (origin : Option Origin)
  | wrongForm (found : FoundSetting) (wanted : WantedSetting)
  | unknownChoice (choice name : String)
  | noChoice (choice : String)
deriving DecidableEq

/-- The wording of a settings error. -/
def SettingsError.message : SettingsError → String
  | .notFound path => Text.concat ["configuration file \"", path, "\" not found"]
  | .unknownFormat path =>
    Text.concat ["configuration file \"", path, "\" is not of a registered file format"]
  | .unreadable error => error.message
  | .malformed path => Text.concat [path, " is not well formed"]
  | .notConvertible found wanted key origin =>
    Text.concat ["invalid type: ", found.message, ", expected ", wanted.message,
      if key.isEmpty then "" else Text.concat [" for key `", KeyPath.text key, "`"],
      match origin with
        | some origin => Text.concat [" in ", origin.text]
        | none => ""]
  | .wrongForm found wanted =>
    Text.concat ["invalid type: ", found.message, ", expected ", wanted.message]
  | .unknownChoice choice name =>
    Text.concat ["enum ", choice, " does not have variant constructor ", name]
  | .noChoice choice =>
    Text.concat ["value of enum ", choice,
      " should be represented by either string or table with exactly one key"]

/-- The error as it is seen from one step further out. -/
def SettingsError.under (step : KeyStep) : SettingsError → SettingsError
  | .notConvertible found wanted key origin => .notConvertible found wanted (step :: key) origin
  | error => error

end StrictSchema
