import StrictSchema.Schema.Keyword

/-!
# Prunings

A node that has no strict form is dropped by its parent, and the drop is recorded as a `Pruning`:
where the node stands, as the `Path` of steps from the root, and the `Reason`, which is the first
check that failed.
-/

namespace StrictSchema

/-- A step from a node to one of its children. -/
inductive Step where
  | alternative (index : Nat)
  | property (name : String)
  | item
  | element (index : Nat)
deriving DecidableEq, Repr

/-- The steps from the root to a node. -/
abbrev Path := List Step

/-- A step as it is written; the name of a property stands as it is. -/
def Step.chars : Step → List Char
  | .alternative i => ['/', 'a', 'n', 'y', 'O', 'f', '/'] ++ Decimal.digitsOf i
  | .property name =>
    ['/', 'p', 'r', 'o', 'p', 'e', 'r', 't', 'i', 'e', 's', '/'] ++ name.toList
  | .item => ['/', 'i', 't', 'e', 'm', 's']
  | .element i => ['/', 'i', 't', 'e', 'm', 's', '/'] ++ Decimal.digitsOf i

/-- The text of a path, from the root on. -/
def Path.text (path : Path) : String := String.ofList ('#' :: path.flatMap Step.chars)

/-- Why a node has no strict form. -/
inductive Reason where
  | noAlternative
  | noType
  | forbidden (keyword : Keyword)
  | unknownFormat (format : String)
  | noProperty
  | noItems
  | badItem
  | noElement
deriving DecidableEq, Repr

/-- The wording of a reason; an unknown format is shown by its name. -/
def Reason.text : Reason → String
  | .noAlternative => "no anyOf alternative is supported"
  | .noType => "no supported type"
  | .forbidden keyword => keyword.name
  | .unknownFormat format => format
  | .noProperty => "object has no supported property"
  | .noItems => "array declares no items"
  | .badItem => "array items are not supported"
  | .noElement => "no tuple item is supported"

/-- A node that was dropped. -/
structure Pruning where
  path : Path
  reason : Reason
deriving DecidableEq, Repr

/-- What a pruning is announced as. -/
def Pruning.message (p : Pruning) : String :=
  match p.reason with
  | .unknownFormat _ => "pruning schema with unsupported format"
  | _ => "pruning unsupported schema"

end StrictSchema
