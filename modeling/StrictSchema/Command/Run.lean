import StrictSchema.Command.Arguments
import StrictSchema.Command.Check
import StrictSchema.Generation.Preparation
import StrictSchema.Settings.Load

/-!
# Running commands

`run` carries out a command line in a `World` and gives the `Outcome`: what is printed, the status,
and the file that is written. The settings are loaded before anything else. A command that fails
keeps what it printed before.
-/

namespace StrictSchema

/-- How a run ends. -/
inductive Status where
  | success
  | failure
  | usage
deriving DecidableEq, Repr

/-- The exit code of a status. -/
def Status.code : Status → Nat
  | .success => 0
  | .failure => 1
  | .usage => 2

/-- What a run prints and writes, and how it ends. -/
structure Outcome where
  status : Status := .success
  output : String := ""
  errors : String := ""
  /-- The path and the text of the file that is written. -/
  saved : Option (String × String) := none
  /-- The files after the run. -/
  files : FileTree

/-! ## Single commands -/

/-- The outcome of a run that fails after it has printed `output`. -/
def Outcome.ofError (files : FileTree) (output : String) (e : CommandError) : Outcome :=
  { status := .failure, output, errors := Text.concat ["Error: ", e.report, "\n"], files }

/-- The value in a file. -/
def FileTree.readJson (files : FileTree) (path : String) : Except CommandError Json := do
  let text ← (files.readText path).mapError (CommandError.reading path)
  (Json.read text).mapError (CommandError.parsing path)

/-- The schema in a file. -/
def FileTree.readSchema (files : FileTree) (path : String) : Except CommandError Schema := do
  Schema.ofJson (← files.readJson path)

/-- The files with a text written to a path, under which directories are made as needed. -/
def FileTree.saveText (files : FileTree) (path text : String) : Except FileError FileTree := do
  let made ← match FilePath.parent? path with
    | some parent => files.ensureDirectories parent
    | none => .ok files
  made.writeText path text

/-- Compiles the schema in a file and prints the result or writes it to a file. -/
def runCompile (settings : Settings) (files : FileTree) (file : String) (out : Option String) :
    Except CommandError Outcome := do
  match compile (← files.readSchema file) with
  | none =>
    return {
      status := .failure
      errors := Text.concat ["❌ ", file, " cannot be used for AI generation\n"]
      files }
  | some s =>
    let text := s.encode.render settings.output.format
    match out with
    | none => return { output := text ++ "\n", files }
    | some path =>
      let files ← (files.saveText path text).mapError CommandError.writing
      return {
        output := Text.concat ["✅ Compiled schema written to ", Text.quoted path, "\n"]
        saved := some (path, text)
        files }

/-- The outcome of a check with the given report. -/
def CheckReport.outcome (files : FileTree) (report : CheckReport) : Outcome :=
  match report.ending with
  | .failed e => .ofError files report.text e
  | .stopped => { status := .failure, output := report.text, files }
  | .finished =>
    let status := if report.unsupported = 0 then .success else .failure
    { status, output := report.text, files }

/-- Checks what the walks come across. -/
def checkWalks (settings : Settings) (files : FileTree) (walks : List (List WalkStep)) : Outcome :=
  (check settings.check walks.flatten).outcome files

/-- Checks the files under the paths. -/
def runCheck (settings : Settings) (files : FileTree) (paths : List String) : Outcome :=
  checkWalks settings files (paths.map files.walk)

/-- Prints the request for the content of a module. -/
def runRequest (settings : Settings) (files : FileTree) (reference : String)
    (description : Option String) (prompt file : String) : Except CommandError Outcome := do
  let m ← (ModuleRef.parse reference).mapError CommandError.failed
  let s ← files.readSchema file
  let r ← (GenerationRequest.forModule m description s prompt settings.generation).mapError
    CommandError.failed
  return { output := r.encode.render settings.output.format ++ "\n", files }

/-- The parts of a reference with the text of its version. -/
def ModuleRef.description (m : ModuleRef) (v : Version) : Json :=
  .object [("namespace", .string m.space), ("module", .string m.name),
    ("version", .string m.version), ("preversion", .string m.preversion),
    ("semver", .string v.text)]

/-- Prints the parts of a module reference. -/
def runModule (files : FileTree) (reference : String) : Except CommandError Outcome := do
  let m ← (ModuleRef.parse reference).mapError CommandError.failed
  let v ← m.semanticVersion.mapError fun e => CommandError.failed (.version e)
  return { output := (m.description v).render .pretty ++ "\n", files }

/-! ## Command lines -/

/-- What is printed for a command line that is none. -/
def usage : String :=
  Text.concat ["Usage: schema-compile [-c FILE] COMMAND\n\n",
    "  compile FILE [-o FILE]\n",
    "  check PATH...\n",
    "  request -m MODULE [-d TEXT] [-p TEXT] FILE\n",
    "  module REFERENCE\n"]

/-- Carries out a command. -/
def Command.run (settings : Settings) (files : FileTree) : Command → Except CommandError Outcome
  | .compile file out => runCompile settings files file out
  | .check paths => .ok (runCheck settings files paths)
  | .request reference description prompt file =>
    runRequest settings files reference description prompt file
  | .module reference => runModule files reference

/-- The outcome of a command. -/
def Command.outcome (settings : Settings) (files : FileTree) (command : Command) : Outcome :=
  match command.run settings files with
  | .ok outcome => outcome
  | .error e => .ofError files "" e

/-- Carries out a command line. -/
def run (world : World) (arguments : List String) : Outcome :=
  match Invocation.ofArguments? arguments with
  | none => { status := .usage, errors := usage, files := world.files }
  | some invocation =>
    match Settings.load world invocation.settingsFile with
    | .error e => .ofError world.files "" (.loading e)
    | .ok settings => invocation.command.outcome settings world.files

end StrictSchema
