import StrictSchema.Number.Binary64

/-!
# Decimal text of binary64 numbers

`Binary64.shortest tie x` is the decimal with the fewest digits among those that round to `x`, and
of these the nearest to `x`; where two are equally near, `tie` decides. It is found on the decimal
grids from one digit on (`onGrid?`): a grid has a point in the rounding interval of `x` (`rounds`)
just if one of the two neighbours of `x` on it is there. A `Layout` says how the digits are chosen
and written.
-/

namespace StrictSchema

/-- The decimal number `digits · 10 ^ exponent`. -/
structure Decimal where
  digits : Nat
  exponent : Int
deriving DecidableEq, Repr

namespace Decimal

/-- Whether `a · 10 ^ p ≤ b · 2 ^ q`. -/
def leScaled (a : Nat) (p : Int) (b : Nat) (q : Int) : Bool :=
  a * tenTo p.toNat * twoTo (-q).toNat ≤ b * twoTo q.toNat * tenTo (-p).toNat

/-- Whether `b · 2 ^ q ≤ a · 10 ^ p`. -/
def geScaled (a : Nat) (p : Int) (b : Nat) (q : Int) : Bool :=
  b * twoTo q.toNat * tenTo (-p).toNat ≤ a * tenTo p.toNat * twoTo (-q).toNat

/-- The digits of a natural number, most significant first. -/
def digitsOf (n : Nat) : List Char := Nat.toDigits 10 n

/-- The natural number that decimal digits spell. -/
def ofDigits (digits : List Char) : Nat :=
  digits.foldl (fun n c => 10 * n + (c.toNat - '0'.toNat)) 0

end Decimal

namespace Binary64

open Decimal

/-- Whether the decimal lies in the interval of numbers that round to the magnitude of `x`. The
interval reaches half a unit to each side, a quarter below a power of two, and holds its ends when
the significand is even. -/
def rounds (x : Binary64) (d : Decimal) : Bool :=
  let unit := x.exponent - 2
  let below := if x.significand = fullSignificand ∧ -1074 < x.exponent then 1 else 2
  let low := 4 * x.significand - below
  let high := 4 * x.significand + 2
  if x.significand % 2 = 0 then
    geScaled d.digits d.exponent low unit && leScaled d.digits d.exponent high unit
  else
    !leScaled d.digits d.exponent low unit && !geScaled d.digits d.exponent high unit

/-- The magnitude of `x` as a quotient of naturals. -/
def ratio (x : Binary64) : Nat × Nat :=
  (x.significand * twoTo x.exponent.toNat, twoTo (-x.exponent).toNat)

/-- The power of ten of the first digit of the magnitude of a number that is not zero. -/
def firstDigit (x : Binary64) : Int :=
  let guess : Int := ((x.significand.log2 : Int) + x.exponent) * 1233 / 4096
  let reaches (k : Int) : Bool := leScaled 1 k x.significand x.exponent
  if reaches (guess + 1) then guess + 1 else if reaches guess then guess else guess - 1

/-- Which of two decimals stands for a number half-way between them. -/
inductive Tie where
  | even
  | up
deriving DecidableEq, Repr

/-- Whether the tie goes to the lower of two decimals, which has the given digits. -/
def Tie.keeps (tie : Tie) (digits : Nat) : Bool :=
  match tie with
  | .even => digits % 2 == 0
  | .up => false

/-- The point of the grid of the multiples of `10 ^ p` that is nearest to the magnitude of `x`, if
the grid has a point that rounds to it. -/
def onGrid? (tie : Tie) (x : Binary64) (p : Int) : Option Decimal :=
  let (num, den) := x.ratio
  let n := num * tenTo (-p).toNat
  let d := den * tenTo p.toNat
  let floor := n / d
  let nearFloor := 2 * (n % d) < d || (2 * (n % d) = d && tie.keeps floor)
  match rounds x ⟨floor, p⟩, rounds x ⟨floor + 1, p⟩ with
  | true, true => some ⟨if nearFloor then floor else floor + 1, p⟩
  | true, false => some ⟨floor, p⟩
  | false, true => some ⟨floor + 1, p⟩
  | false, false => none

/-- All the digits of the magnitude of `x`. -/
def exact (x : Binary64) : Decimal :=
  if x.exponent < 0 then ⟨x.significand * Nat.pow 5 (-x.exponent).toNat, x.exponent⟩
  else ⟨x.significand * twoTo x.exponent.toNat, 0⟩

/-- The nearest of the decimals with the fewest digits that round to the magnitude of `x`. The
first grid is that of the next power of ten, to which the number itself may round. -/
def shortest (tie : Tie) (x : Binary64) : Decimal :=
  if x.isZero then ⟨0, 0⟩
  else
    let top := x.firstDigit + 1
    ((List.range 18).findSome? fun (n : Nat) => x.onGrid? tie (top - n)).getD x.exact

/-- How a number is written: the powers of ten of the first digit that are written out in full, if
not all are, whether a whole number keeps a point and a zero, and which way ties go. -/
structure Layout where
  plain : Option (Int × Int)
  wholePoint : Bool
  tie : Tie

/-- The digits with the point put before the last `-exponent` of them, or zeros after them. -/
def Layout.positional (layout : Layout) (digits : List Char) (exponent : Int) : List Char :=
  if 0 ≤ exponent then
    digits ++ List.replicate exponent.toNat '0' ++ (if layout.wholePoint then ['.', '0'] else [])
  else
    let places := (-exponent).toNat
    let padded := List.replicate (places + 1 - digits.length) '0' ++ digits
    padded.take (padded.length - places) ++ '.' :: padded.drop (padded.length - places)

/-- One digit before the point, and the exponent with its sign. -/
def scientific (digits : List Char) (first : Int) : List Char :=
  let fraction := digits.drop 1
  digits.take 1 ++ (if fraction.isEmpty then [] else '.' :: fraction) ++
    'e' :: (if first < 0 then '-' else '+') :: digitsOf first.natAbs

/-- The shortest text of `x` in the layout. -/
def text (layout : Layout) (x : Binary64) : List Char :=
  let d := x.shortest layout.tie
  let digits := digitsOf d.digits
  let first := d.exponent + digits.length - 1
  let written := match layout.plain with
    | none => layout.positional digits d.exponent
    | some (low, high) =>
      if low ≤ first ∧ first ≤ high then layout.positional digits d.exponent
      else scientific digits first
  if x.negative then '-' :: written else written

end Binary64

end StrictSchema
