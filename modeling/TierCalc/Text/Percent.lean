import TierCalc.Text.ShortestDecimal

/-!
# Percentages

A share between zero and one, in percent with one decimal place. The product with one hundred is a floating-point
number; its exact value is rounded, and a half goes to the even neighbour.
-/

namespace TierCalc.Percent

/-- A fraction rounded to an integer. -/
def round (x : Nat × Nat) : Nat :=
  let whole := x.1 / x.2
  let rest := 2 * (x.1 % x.2)
  if rest < x.2 then whole
  else if x.2 < rest then whole + 1
  else whole + whole % 2

def text (share : Float) : String :=
  let (m, q) := ShortestDecimal.parts (100 * share)
  let tenths := round (ShortestDecimal.fraction m q 1)
  toString (tenths / 10) ++ "." ++ toString (tenths % 10) ++ "%"

end TierCalc.Percent
