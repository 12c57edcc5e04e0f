import StrictSchema.Files.Path
import StrictSchema.Settings.Basic

/-!
# Selected files

A check reads the files whose extension is one of the configured ones (`CheckSettings.selects`).
-/

namespace StrictSchema

/-- Whether a path has one of the extensions, in exactly this case. -/
def CheckSettings.selects (s : CheckSettings) (path : String) : Bool :=
  match FilePath.extension? path with
  | some e => s.extensions.contains e
  | none => false

end StrictSchema
