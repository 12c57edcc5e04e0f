import StrictSchema.Failure
import StrictSchema.Compilation.Compile
import StrictSchema.Generation.Request
import StrictSchema.Module.Reference

/-!
# Preparing generation

`prepare` gives the schema of a module in the strict dialect, and `GenerationRequest.forModule`
builds the request that carries it. What is announced meanwhile are `Notice`s: the prunings in
order, then the outcome. `parseCompletion` reads the answer to a request, which has to be an object.
-/

namespace StrictSchema

/-! ## Notices -/

/-- How much a notice matters. -/
inductive Level where
  | debug
  | info
  | warn
deriving DecidableEq, Repr

/-- The name of a level. -/
def Level.name : Level → String
  | .debug => "DEBUG"
  | .info => "INFO"
  | .warn => "WARN"

/-- What is announced while a schema is prepared. -/
inductive Notice where
  | pruned (pruning : Pruning)
  | prepared (module : String) (properties : Nat)
  | unusable (module : String)
deriving DecidableEq, Repr

namespace Notice

/-- The text of a notice. -/
def message : Notice → String
  | .pruned p => p.message
  | .prepared _ _ => "module schema prepared"
  | .unusable _ => "module schema cannot be used for generation"

/-- The level of a notice. -/
def level : Notice → Level
  | .pruned _ => .debug
  | .prepared _ _ => .info
  | .unusable _ => .warn

end Notice

/-! ## Requests for modules -/

/-- Reads the reference of a module. -/
def ModuleRef.parse (value : String) : Except Failure ModuleRef :=
  match parse? value with
  | some m => .ok m
  | none => .error (.invalidModule value)

/-- The schema of a module in the strict dialect. -/
def prepare (m : ModuleRef) (s : Schema) : Except Failure Schema :=
  match compile s with
  | some compiled => .ok compiled
  | none => .error (.unsupportedSchema m.text)

/-- What is announced while the schema of a module is prepared. -/
def preparationNotices (m : ModuleRef) (s : Schema) : List Notice :=
  (prunings s).map .pruned ++
    [match compile s with
      | some compiled => .prepared m.text compiled.properties.length
      | none => .unusable m.text]

/-- A message of the system. -/
def ChatMessage.ofSystem (content : String) : ChatMessage := { role := .system, content }

/-- A message of the user. -/
def ChatMessage.ofUser (content : String) : ChatMessage := { role := .user, content }

/-- The messages of a conversation: the one that opens it, if there is one, and the prompt. -/
def openingMessages (settings : GenerationSettings) (prompt : String) : List ChatMessage :=
  (settings.systemPrompt.map ChatMessage.ofSystem).toList ++ [.ofUser prompt]

/-- The request for the content of a module. An empty description counts as none. -/
def GenerationRequest.forModule (m : ModuleRef) (description : Option String) (s : Schema)
    (prompt : String) (settings : GenerationSettings) : Except Failure GenerationRequest :=
  (prepare m s).map fun compiled => {
    model := settings.model
    messages := openingMessages settings prompt
    responseFormat := .jsonSchema {
      name := m.name
      description := description.filter (!·.isEmpty)
      schema := compiled
      strict := settings.strict } }

/-! ## Answers -/

/-- The members of the object that an answer has to be. -/
def parseCompletion (content : String) : Except Failure (List (String × Json)) := do
  match ← (Json.readText content).mapError Failure.document with
  | .object members => return members
  | v => throw (.invalidCompletion v.found)

end StrictSchema
