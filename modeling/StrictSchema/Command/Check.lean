import StrictSchema.Command.Error
import StrictSchema.Compilation.Compile
import StrictSchema.Files.Walk
import StrictSchema.Schema.Decode
import StrictSchema.Settings.Selection

/-!
# Checking files

A check compiles every selected file that it comes across and reports the verdicts in order
(`check`). The report says how the check ended: it went through everything, it stopped at the first
file without a strict form, or it failed.
-/

namespace StrictSchema

/-! ## Single files -/

/-- The value in a file, from what reading the file gives. -/
def FileText.json (text : FileText) (path : String) : Except CommandError Json := do
  (Json.read (← text.mapError (CommandError.reading path))).mapError (CommandError.parsing path)

/-- A value as a schema. -/
def Schema.ofJson (v : Json) : Except CommandError Schema :=
  (Schema.decode v).mapError fun e => .failed (.document (.mismatched e))

/-- The schema in a file. -/
def FileText.schema (text : FileText) (path : String) : Except CommandError Schema := do
  Schema.ofJson (← text.json path)

/-- Whether the schema in a file has a strict form. -/
def FileText.isSupported (text : FileText) (path : String) : Except CommandError Bool := do
  return (compile (← FileText.schema text path)).isSome

/-! ## Reports -/

/-- What a check says of a file. -/
structure Verdict where
  path : String
  supported : Bool
deriving DecidableEq, Repr

/-- How a check ends. -/
inductive CheckEnd where
  | finished
  | stopped
  | failed (error : CommandError)
deriving DecidableEq

/-- The verdicts of a check in order, and how it ended. -/
structure CheckReport where
  verdicts : List Verdict
  ending : CheckEnd
deriving DecidableEq

/-- The report of a check over what a walk came across. What is no file is passed over. -/
def check (settings : CheckSettings) : List WalkStep → CheckReport
  | [] => ⟨[], .finished⟩
  | .fault path e :: _ => ⟨[], .failed (.walking path e)⟩
  | .directory _ :: rest => check settings rest
  | .link _ :: rest => check settings rest
  | .file path text :: rest =>
    if settings.selects path then
      match FileText.isSupported text path with
      | .error e => ⟨[], .failed e⟩
      | .ok supported =>
        if !supported && settings.failFast then ⟨[⟨path, supported⟩], .stopped⟩
        else
          let others := check settings rest
          ⟨⟨path, supported⟩ :: others.verdicts, others.ending⟩
    else check settings rest

/-! ## Texts -/

/-- The line for a verdict. -/
def Verdict.line (v : Verdict) : String :=
  if v.supported then Text.concat ["  ✅ ", v.path, "\n"]
  else Text.concat ["  ❌ ", v.path, " - cannot be used for AI generation\n"]

namespace CheckReport

/-- How many files have a strict form. -/
def supported (r : CheckReport) : Nat := r.verdicts.countP (·.supported)

/-- How many files have none. -/
def unsupported (r : CheckReport) : Nat := r.verdicts.countP (!·.supported)

/-- The counts, in a block of their own. -/
def summary (r : CheckReport) : String :=
  Text.concat ["\n", toString r.supported, " supported, ", toString r.unsupported,
    " unsupported\n"]

/-- The text of a report: a line for each verdict, and the counts if the check was finished. -/
def text (r : CheckReport) : String :=
  String.join (r.verdicts.map Verdict.line) ++
    match r.ending with
    | .finished => r.summary
    | .stopped => ""
    | .failed _ => ""

end CheckReport

end StrictSchema
