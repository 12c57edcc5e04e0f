/-!
# Splitting

`Text.split sep cs` gives the pieces between the separators, of which there is always one more than
there are separators; `Text.cut sep cs` gives what stands before and after the first separator.
-/

namespace StrictSchema.Text

variable {α : Type} [DecidableEq α]

/-- The pieces between separators. -/
def split (sep : α) : List α → List (List α)
  | [] => [[]]
  | c :: cs =>
    match split sep cs with
    | [] => [[c]]
    | piece :: pieces => if c = sep then [] :: piece :: pieces else (c :: piece) :: pieces

/-- What stands before and after the first separator, if there is one. -/
def cut (sep : α) : List α → Option (List α × List α)
  | [] => none
  | c :: cs =>
    if c = sep then some ([], cs) else (cut sep cs).map fun (before, after) => (c :: before, after)

end StrictSchema.Text
