/-!
# Members

Objects, property maps and tables are lists of named values whose order counts. A name stands at
most once in a list that is built with `Members.insert`: a repeated name keeps its first place and
takes the last value.
-/

namespace StrictSchema.Members

variable {α : Type}

/-- Gives a name its value, in place if the name is there and at the end if not. -/
def insert (name : String) (value : α) : List (String × α) → List (String × α)
  | [] => [(name, value)]
  | (n, v) :: rest => if n = name then (n, value) :: rest else (n, v) :: insert name value rest

/-- The members that the pairs make, taken in order. -/
def ofList (pairs : List (String × α)) : List (String × α) :=
  pairs.foldl (fun members (name, value) => insert name value members) []

/-- The names in order. -/
def names (members : List (String × α)) : List String := members.map Prod.fst

/-- The value of a name. -/
def find? (name : String) : List (String × α) → Option α
  | [] => none
  | (n, v) :: rest => if n = name then some v else find? name rest

end StrictSchema.Members
