/-!
# Finite binary64 numbers

A finite double-precision number is a sign, a significand and a power of two (`Binary64`), held in
the one form that its bits stand for (`Canonical`): a full significand, or the least exponent.
`Binary64.nearest` rounds a quotient of naturals to the nearest such number, a half to the even
significand, and fails where that number would not be finite; `Binary64.ofDecimal` does so for
`digits · 10 ^ exponent`.
-/

namespace StrictSchema

/-- The power of two. -/
def twoTo (k : Nat) : Nat := Nat.pow 2 k

/-- The power of ten. -/
def tenTo (k : Nat) : Nat := Nat.pow 10 k

/-- The least significand of 53 bits; the one after all of them is twice as great. -/
def fullSignificand : Nat := 4503599627370496

/-- The significands and exponents that a finite binary64 number has. -/
def Canonical (significand : Nat) (exponent : Int) : Prop :=
  significand < 2 * fullSignificand ∧ -1074 ≤ exponent ∧ exponent ≤ 971 ∧
    (fullSignificand ≤ significand ∨ exponent = -1074)

instance (significand : Nat) (exponent : Int) : Decidable (Canonical significand exponent) := by
  unfold Canonical; infer_instance

/-- The number `± significand · 2 ^ exponent`. -/
structure Binary64 where
  negative : Bool
  significand : Nat
  exponent : Int
  canonical : Canonical significand exponent
deriving DecidableEq

namespace Binary64

/-- Zero, of either sign. -/
def zero (negative : Bool) : Binary64 := ⟨negative, 0, -1074, by decide⟩

def isZero (x : Binary64) : Bool := x.significand == 0

/-- Equality of values: the two zeros are one number. -/
def sameValue (x y : Binary64) : Bool := x == y || (x.isZero && y.isZero)

/-! ## Rounding -/

/-- The quotient rounded to the nearest natural number, a half to the even one. -/
def roundDiv (num den : Nat) : Nat :=
  let q := num / den
  let twice := 2 * (num % den)
  if twice < den then q
  else if den < twice then q + 1
  else if q % 2 = 0 then q else q + 1

/-- `num / den` in units of `2 ^ exponent`, as a quotient of naturals. -/
def inUnits (num den : Nat) (exponent : Int) : Nat × Nat :=
  (num * twoTo (-exponent).toNat, den * twoTo exponent.toNat)

/-- The exponent whose unit makes a significand of 53 bits out of `num / den`, or the least one. -/
def unitExponent (num den : Nat) : Int :=
  let guess := max ((num.log2 : Int) - (den.log2 : Int) - 53) (-1074)
  let (n, d) := inUnits num den guess
  if n / d < 2 * fullSignificand then guess else guess + 1

/-- The number with the given significand, where a carry out of 53 bits moves to the next unit. -/
def ofRounded? (negative : Bool) (significand : Nat) (exponent : Int) : Option Binary64 :=
  let (m, e) := if significand = 2 * fullSignificand then (fullSignificand, exponent + 1)
    else (significand, exponent)
  if h : Canonical m e then some ⟨negative, m, e, h⟩ else none

/-- The number nearest to `± num / den`; none if it is too large to be finite. -/
def nearest (negative : Bool) (num den : Nat) : Option Binary64 :=
  let e := unitExponent num den
  let (n, d) := inUnits num den e
  ofRounded? negative (roundDiv n d) e

/-- The number nearest to `± digits · 10 ^ exponent`. Beyond the powers of ten around the finite
range the answer is known from the position of the first digit alone. -/
def ofDecimal (negative : Bool) (digits : Nat) (exponent : Int) : Option Binary64 :=
  if digits = 0 then some (zero negative)
  else
    let first := exponent + (Nat.toDigits 10 digits).length
    if 400 < first then none
    else if first < -400 then some (zero negative)
    else nearest negative (digits * tenTo exponent.toNat) (tenTo (-exponent).toNat)

end Binary64

end StrictSchema
