/-!
# Ranges of characters

Tables of code points, given by the first and the last of each range.
-/

namespace TierCalc.Text

/-- Whether a code point lies in one of the ranges. -/
def inRanges (ranges : List (Nat × Nat)) (n : Nat) : Bool :=
  ranges.any fun r => r.1 ≤ n && n ≤ r.2

end TierCalc.Text
