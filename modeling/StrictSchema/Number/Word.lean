/-!
# Integers of 64 bits

The integers that a word of 64 bits holds: with a sign (`FitsSigned`), without one (up to
`greatestWord`), or in either way (`FitsWord`).
-/

namespace StrictSchema

/-- The greatest integer of 64 bits without a sign, one below the power of two. -/
def greatestWord : Nat := 18446744073709551615

/-- The integers that 64 bits hold with a sign. -/
def FitsSigned (n : Int) : Prop := -9223372036854775808 ≤ n ∧ n ≤ 9223372036854775807

instance (n : Int) : Decidable (FitsSigned n) := by unfold FitsSigned; infer_instance

/-- The integers that 64 bits hold, with or without a sign. -/
def FitsWord (n : Int) : Prop := -9223372036854775808 ≤ n ∧ n ≤ greatestWord

instance (n : Int) : Decidable (FitsWord n) := by unfold FitsWord; infer_instance

end StrictSchema
