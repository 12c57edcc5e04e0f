import StrictSchema.Toml.Value

/-!
# TOML tables under construction

While a document is read its tables are `Node`s that remember how they came to be, because this
decides what may be added to them: a table with a header of its own, one that is only part of the
path of a header, or one that dotted keys made. `insertPair?` adds a key with its value,
`openTable?` and `openElement?` what the two kinds of header announce; each fails where a key is
defined twice.
-/

namespace StrictSchema.Toml

/-- What made a table. -/
inductive Maker where
  | header
  | path
  | dots
deriving DecidableEq

/-- A part of a document: a value, a table, or a list of tables of which the last is open. -/
inductive Node where
  | value (v : Toml)
  | table (maker : Maker) (entries : List (String × Node))
  | tables (elements : List (List (String × Node)))

namespace Node

mutual

/-- The value that a part stands for. -/
def toToml : Node → Toml
  | .value v => v
  | .table _ entries => .table (entriesToToml entries)
  | .tables elements => .list (elementsToToml elements)
termination_by structural n => n

/-- The entries of a table as values. -/
def entriesToToml : List (String × Node) → List (String × Toml)
  | [] => []
  | (name, n) :: rest => (name, toToml n) :: entriesToToml rest
termination_by structural ns => ns

/-- The tables of a list as values. -/
def elementsToToml : List (List (String × Node)) → List Toml
  | [] => []
  | entries :: rest => .table (entriesToToml entries) :: elementsToToml rest
termination_by structural ns => ns

end

/-- The entries of a table. -/
abbrev Entries := List (String × Node)

/-- Changes the last of several tables. -/
def changeLast (change : Entries → Option Entries) : List Entries → Option (List Entries)
  | [] => none
  | [last] => (change last).map fun e => [e]
  | e :: es => (changeLast change es).map fun es => e :: es

/-- Changes the table at a path, where tables that are not there are made. -/
def changeAt (change : Entries → Option Entries) : List String → Entries → Option Entries
  | [], entries => change entries
  | name :: path, entries =>
    match Members.find? name entries with
    | none => (changeAt change path []).map fun e => Members.insert name (.table .path e) entries
    | some (.table maker inner) =>
      (changeAt change path inner).map fun e => Members.insert name (.table maker e) entries
    | some (.tables elements) =>
      (changeLast (changeAt change path) elements).map fun es =>
        Members.insert name (.tables es) entries
    | some (.value _) => none

/-- Adds a key that is not there. -/
def insertKey? (key : String) (v : Toml) (entries : Entries) : Option Entries :=
  match Members.find? key entries with
  | none => some (Members.insert key (.value v) entries)
  | some _ => none

/-- Adds a key under dotted keys. The last of these has to be a table that dotted keys made, and
none of them one with a header. -/
def insertPair? (key : String) (v : Toml) : List String → Entries → Option Entries
  | [], entries => insertKey? key v entries
  | name :: path, entries =>
    match Members.find? name entries with
    | none => (insertPair? key v path []).map fun e => Members.insert name (.table .dots e) entries
    | some (.table maker inner) =>
      if maker = .header ∨ (maker = .path ∧ path.isEmpty) then none
      else (insertPair? key v path inner).map fun e => Members.insert name (.table maker e) entries
    | some (.tables elements) =>
      if path.isEmpty then none
      else (changeLast (insertPair? key v path) elements).map fun es =>
        Members.insert name (.tables es) entries
    | some (.value _) => none

/-- Announces a table; it must not have had a header or dotted keys before. -/
def openTable? (key : String) (entries : Entries) : Option Entries :=
  match Members.find? key entries with
  | none => some (Members.insert key (.table .header []) entries)
  | some (.table .path inner) => some (Members.insert key (.table .header inner) entries)
  | some _ => none

/-- Announces a further table of a list. -/
def openElement? (key : String) (entries : Entries) : Option Entries :=
  match Members.find? key entries with
  | none => some (Members.insert key (.tables [[]]) entries)
  | some (.tables elements) => some (Members.insert key (.tables (elements ++ [[]])) entries)
  | some _ => none

end Node

end StrictSchema.Toml
