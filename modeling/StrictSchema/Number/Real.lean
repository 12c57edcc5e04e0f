import StrictSchema.Number.Decimal

/-!
# Floating-point numbers with infinities

A `Real64` is a finite binary64 number, one of the two infinities, or no number at all.
`Real64.ofDecimal` rounds a decimal and goes to infinity where `Binary64.ofDecimal` fails.
-/

namespace StrictSchema

/-- A binary64 number of any kind. -/
inductive Real64 where
  | finite (x : Binary64)
  | infinite (negative : Bool)
  | nan
deriving DecidableEq

namespace Real64

/-- The number nearest to `± digits · 10 ^ exponent`. -/
def ofDecimal (negative : Bool) (digits : Nat) (exponent : Int) : Real64 :=
  match Binary64.ofDecimal negative digits exponent with
  | some x => .finite x
  | none => .infinite negative

def isZero : Real64 → Bool
  | .finite x => x.isZero
  | _ => false

/-- The text of a number, finite ones in the given layout. -/
def text (layout : Binary64.Layout) : Real64 → List Char
  | .finite x => x.text layout
  | .infinite negative => if negative then ['-', 'i', 'n', 'f'] else ['i', 'n', 'f']
  | .nan => ['N', 'a', 'N']

end Real64

end StrictSchema
