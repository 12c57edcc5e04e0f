/-!
# Texts made of pieces

`Text.concat pieces` is the text of the pieces one after the other. It stays folded when the
definitions around it are unfolded, so that reasoning about who says what does not compute texts.
-/

namespace StrictSchema.Text

/-- The pieces one after the other. -/
@[irreducible]
def concat (pieces : List String) : String := String.join pieces

end StrictSchema.Text
