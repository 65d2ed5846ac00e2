/-
  Character classes given as lists of code point ranges.

  Key definitions include:
    * `Text.inRanges`
-/

namespace WireSchema

namespace Text

------------------------------------------------------------
-- Range Tables
------------------------------------------------------------

/- Whether a code point lies in one of the closed ranges. -/
def inRanges
    (ranges : List (Nat × Nat))
    (n : Nat) :
    Bool :=
  ranges.any fun range =>
    decide (range.1 ≤ n) && decide (n ≤ range.2)

end Text

end WireSchema
