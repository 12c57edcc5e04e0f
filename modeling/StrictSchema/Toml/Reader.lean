import StrictSchema.Toml.Scalar
import StrictSchema.Toml.Table

/-!
# TOML documents

`Toml.read?` reads a text as a table, or as nothing if it is not well formed. A document is a list
of `Statement`s, each on lines of its own: a key with its value, or a header that says which table
the keys after it belong to. The statements are read first (`statements?`) and then carried out in
order (`entriesOf?`).
-/

namespace StrictSchema.Toml

/-- A line of a document that says something. The last of the keys is kept apart. -/
inductive Statement where
  | pair (path : List String) (key : String) (v : Toml)
  | table (path : List String) (key : String)
  | element (path : List String) (key : String)

/-! ## Blanks and comments -/

/-- What is left after blanks, line ends and comments. -/
def skipLines? (inComment : Bool) : List Char → Option (List Char)
  | [] => some []
  | c :: rest =>
    if c = '\n' then skipLines? false rest
    else if c = '\r' then
      match rest with
      | '\n' :: after => skipLines? false after
      | _ => none
    else if inComment then if isForbidden c then none else skipLines? true rest
    else if c = '#' then skipLines? true rest
    else if isBlank c then skipLines? false rest
    else some (c :: rest)

/-- What is left after the end of the line, which only a comment may precede. -/
def finishLine? (cs : List Char) : Option (List Char) :=
  match skipBlank cs with
  | [] => some []
  | '#' :: comment => skipLines? true comment
  | rest => lineEnd? rest

/-! ## Keys -/

/-- Characters of a key without quotes. -/
def isKeyChar (c : Char) : Bool := c.isAlphanum || c = '_' || c = '-'

/-- One key. -/
def key? : List Char → Option (String × List Char)
  | '"' :: rest => (basic? rest).map fun (cs, rest) => (String.ofList cs, rest)
  | '\'' :: rest => (literal? rest).map fun (cs, rest) => (String.ofList cs, rest)
  | cs =>
    let name := cs.takeWhile isKeyChar
    if name.isEmpty then none else some (String.ofList name, cs.dropWhile isKeyChar)

/-- Keys with dots between them, at most as many as `count`. -/
def moreKeys? : Nat → List Char → Option (List String × List Char)
  | 0, _ => none
  | count + 1, cs => do
    let (name, rest) ← key? (skipBlank cs)
    match skipBlank rest with
    | '.' :: after => do
      let (names, final) ← moreKeys? count after
      some (name :: names, final)
    | after => some ([name], after)

/-- How deep keys and values may be nested. -/
def depthLimit : Nat := 79

/-- Dotted keys, the last of them apart. -/
def keyPath? (cs : List Char) : Option (List String × String × List Char) := do
  let (names, rest) ← moreKeys? depthLimit cs
  let last ← names.getLast?
  some (names.dropLast, last, rest)

/-! ## Values -/

/-- What reads one value. -/
abbrev ValueReader := List Char → Option (Toml × List Char)

/-- The elements of a list up to its bracket, at most as many as `count`. -/
def elements? (value? : ValueReader) : Nat → List Char → Option (List Toml × List Char)
  | 0, _ => none
  | count + 1, cs => do
    match ← skipLines? false cs with
    | ']' :: rest => some ([], rest)
    | first => do
      let (v, rest) ← value? first
      match ← skipLines? false rest with
      | ']' :: after => some ([v], after)
      | ',' :: after => do
        let (vs, final) ← elements? value? count after
        some (v :: vs, final)
      | _ => none

/-- A key with its value, on one line. -/
def pair? (value? : ValueReader) (cs : List Char) :
    Option (List String × String × Toml × List Char) := do
  let (path, key, rest) ← keyPath? cs
  match rest with
  | '=' :: after => do
    let (v, final) ← value? (skipBlank after)
    some (path, key, v, final)
  | _ => none

/-- The pairs of a table in braces after `entries`, at most as many as `count`. -/
def pairs? (value? : ValueReader) (entries : Node.Entries) :
    Nat → List Char → Option (Node.Entries × List Char)
  | 0, _ => none
  | count + 1, cs => do
    let (path, key, v, rest) ← pair? value? cs
    let entries ← Node.insertPair? key v path entries
    match skipBlank rest with
    | '}' :: after => some (entries, after)
    | ',' :: after => pairs? value? entries count after
    | _ => none

/-- A value in which at most `depth` lists and tables are nested. -/
def value? : Nat → ValueReader
  | depth, cs =>
    match cs with
    | '[' :: rest =>
      match depth with
      | 0 => none
      | inner + 1 => (elements? (value? inner) cs.length rest).map fun (vs, r) => (.list vs, r)
    | '{' :: rest =>
      match depth with
      | 0 => none
      | inner + 1 =>
        match skipBlank rest with
        | '}' :: after => some (.table [], after)
        | first =>
          (pairs? (value? inner) [] cs.length first).map fun (entries, r) =>
            (.table (Node.entriesToToml entries), r)
    | '"' :: _ => (quoted? cs).map fun (s, r) => (.text (String.ofList s), r)
    | '\'' :: _ => (quoted? cs).map fun (s, r) => (.text (String.ofList s), r)
    | _ =>
      match moment? cs with
      | some (m, rest) => some (.moment m, rest)
      | none => (ofWord? (cs.takeWhile isWordChar)).map fun v => (v, cs.dropWhile isWordChar)

/-! ## Documents -/

/-- One statement without the end of its line. -/
def statement? (cs : List Char) : Option (Statement × List Char) := do
  match cs with
  | '[' :: '[' :: rest => do
    let (path, key, after) ← keyPath? rest
    match after with
    | ']' :: ']' :: final => some (.element path key, final)
    | _ => none
  | '[' :: rest => do
    let (path, key, after) ← keyPath? rest
    match after with
    | ']' :: final => some (.table path key, final)
    | _ => none
  | _ => do
    let (path, key, v, rest) ← pair? (value? depthLimit) cs
    some (.pair path key v, rest)

/-- The statements of a document, at most as many as `count`. -/
def statements? : Nat → List Char → Option (List Statement)
  | 0, _ => none
  | count + 1, cs => do
    match ← skipLines? false cs with
    | [] => some []
    | first => do
      let (s, rest) ← statement? first
      let after ← finishLine? rest
      (statements? count after).map fun ss => s :: ss

/-- What the statements make of `entries`, where pairs go to the table at `current`. -/
def entriesOf? (current : List String) (entries : Node.Entries) :
    List Statement → Option Node.Entries
  | [] => some entries
  | .pair path key v :: rest => do
    let next ← Node.changeAt (Node.insertPair? key v path) current entries
    entriesOf? current next rest
  | .table path key :: rest => do
    let next ← Node.changeAt (Node.openTable? key) path entries
    entriesOf? (path ++ [key]) next rest
  | .element path key :: rest => do
    let next ← Node.changeAt (Node.openElement? key) path entries
    entriesOf? (path ++ [key]) next rest

/-- The entries of a document; a byte order mark may come first. -/
def read? (text : String) : Option (List (String × Toml)) := do
  let cs := match text.toList with
    | '\ufeff' :: rest => rest
    | cs => cs
  let statements ← statements? (cs.length + 1) cs
  let entries ← entriesOf? [] [] statements
  some (Node.entriesToToml entries)

end StrictSchema.Toml
