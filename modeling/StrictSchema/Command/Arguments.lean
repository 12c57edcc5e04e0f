import StrictSchema.Text.Split

/-!
# Command-line arguments

A command line names a command and gives its operands and options (`Invocation.ofArguments?`). An
option has a value, in the same argument or in the next one, and stands at most once before the name
of the command and at most once after it. The option for the settings file may stand in both places,
and then the one after the name counts. Paths are not empty.
-/

namespace StrictSchema

/-! ## Options -/

/-- An option of the command line. -/
inductive Opt where
  | config
  | out
  | module
  | description
  | prompt
deriving DecidableEq, Repr

namespace Opt

/-- The name of an option after two hyphens. -/
def long : Opt → String
  | .config => "config"
  | .out => "out"
  | .module => "module"
  | .description => "description"
  | .prompt => "prompt"

/-- The letter of an option after one hyphen. -/
def short : Opt → Char
  | .config => 'c'
  | .out => 'o'
  | .module => 'm'
  | .description => 'd'
  | .prompt => 'p'

end Opt

/-- What an argument is, taken by itself. -/
inductive Word where
  | operand
  | separator
  | option (opt : Opt) (value : Option String)
  | unknown
deriving DecidableEq, Repr

/-- An argument where the given options are known. An equals sign may stand between an option and
the value in the same argument. -/
def Word.ofText (known : List Opt) (text : String) : Word :=
  match text.toList with
  | ['-', '-'] => .separator
  | '-' :: '-' :: cs =>
    let (name, value) := match Text.cut '=' cs with
      | some (name, value) => (name, some (String.ofList value))
      | none => (cs, none)
    match known.find? (·.long.toList == name) with
    | some opt => .option opt value
    | none => .unknown
  | '-' :: c :: cs =>
    let value := match cs with
      | [] => none
      | '=' :: value => some (String.ofList value)
      | value => some (String.ofList value)
    match known.find? (·.short == c) with
    | some opt => .option opt value
    | none => .unknown
  | _ => .operand

/-- Whether an argument can be the value of the option before it. -/
def canBeValue (text : String) : Bool := Word.ofText [] text == .operand

/-! ## Options and operands -/

/-- Arguments told apart: the options with their values, and the rest. -/
structure Arguments where
  options : List (Opt × String) := []
  operands : List String := []

namespace Arguments

/-- The arguments with an option in front. -/
def withOption (opt : Opt) (value : String) (a : Arguments) : Arguments :=
  { a with options := (opt, value) :: a.options }

/-- The arguments with an operand in front. -/
def withOperand (text : String) (a : Arguments) : Arguments :=
  { a with operands := text :: a.operands }

/-- Tells options and operands apart, or only the options before the first operand. What follows a
separator is an operand. -/
def read? (known : List Opt) (throughout : Bool) : List String → Option Arguments
  | [] => some {}
  | text :: rest =>
    match Word.ofText known text with
    | .operand =>
      if throughout then (read? known throughout rest).map (withOperand text)
      else some { operands := text :: rest }
    | .separator => some { operands := if throughout then rest else text :: rest }
    | .option opt (some value) => (read? known throughout rest).map (withOption opt value)
    | .option opt none =>
      match rest with
      | [] => none
      | value :: rest =>
        if canBeValue value then (read? known throughout rest).map (withOption opt value)
        else none
    | .unknown => none
termination_by structural texts => texts

/-- Whether no option is repeated. -/
def isSingle (a : Arguments) : Bool := decide (a.options.map Prod.fst).Nodup

/-- Reads arguments in which no option is repeated. -/
def readSingle? (known : List Opt) (throughout : Bool) (texts : List String) : Option Arguments :=
  (read? known throughout texts).filter isSingle

/-- The value of an option. -/
def value? (a : Arguments) (opt : Opt) : Option String :=
  (a.options.find? (·.1 == opt)).map Prod.snd

end Arguments

/-! ## Commands -/

/-- A command with its operands and options. -/
inductive Command where
  | compile (file : String) (out : Option String)
  | check (paths : List String)
  | request (module : String) (description : Option String) (prompt file : String)
  | module (reference : String)
deriving DecidableEq, Repr

/-- The prompt of a request that names none. -/
def defaultPrompt : String := "Generate the module content."

/-- The options of a command, by its name. -/
def Command.options? : String → Option (List Opt)
  | "compile" => some [.config, .out]
  | "check" => some [.config]
  | "request" => some [.config, .module, .description, .prompt]
  | "module" => some [.config]
  | _ => none

/-- The command of the given name. -/
def Command.ofArguments? (name : String) (a : Arguments) : Option Command :=
  match name, a.operands with
  | "compile", [file] =>
    let out := a.value? .out
    if file.isEmpty || out == some "" then none else some (.compile file out)
  | "check", paths => if paths.isEmpty || paths.contains "" then none else some (.check paths)
  | "request", [file] =>
    if file.isEmpty then none
    else (a.value? .module).map fun m =>
      .request m (a.value? .description) ((a.value? .prompt).getD defaultPrompt) file
  | "module", [reference] => some (.module reference)
  | _, _ => none

/-- The paths of a command. -/
def Command.paths : Command → List String
  | .compile file out => file :: out.toList
  | .check paths => paths
  | .request _ _ _ file => [file]
  | .module _ => []

/-- A command, and the settings file that was asked for. -/
structure Invocation where
  settingsFile : Option String
  command : Command
deriving DecidableEq, Repr

/-- Reads a command line. -/
def Invocation.ofArguments? (texts : List String) : Option Invocation := do
  let before ← Arguments.readSingle? [.config] false texts
  match before.operands with
  | [] => none
  | name :: rest =>
    let known ← Command.options? name
    let after ← Arguments.readSingle? known true rest
    let command ← Command.ofArguments? name after
    some { settingsFile := (after.value? .config).or (before.value? .config), command }

end StrictSchema
