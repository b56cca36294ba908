/-!
# Shortest decimals

The decimal with the fewest digits that lies so close to a floating-point number that reading it gives the number
back; of several, the nearest one.

A positive number is `m * 2 ^ q`. The reals that round to it lie between the midpoints to its two neighbours, which
belong to them if `m` is even. Grids of one digit, two digits and so on are tried until one of the number's two
neighbours on the grid lies in that range; seventeen digits are always enough.
-/

namespace TierCalc.ShortestDecimal

/-- The number `n * 2 ^ p * 10 ^ k` as a fraction. -/
def fraction (n : Nat) (p k : Int) : Nat × Nat :=
  (n * Nat.pow 2 p.toNat * Nat.pow 10 k.toNat, Nat.pow 2 (-p).toNat * Nat.pow 10 (-k).toNat)

/-- Whether one fraction is below another. -/
def below (x y : Nat × Nat) : Bool := x.1 * y.2 < y.1 * x.2

/-- The distance of two fractions. -/
def distance (x y : Nat × Nat) : Nat × Nat := (max (x.1 * y.2) (y.1 * x.2) - min (x.1 * y.2) (y.1 * x.2), x.2 * y.2)

/-- The leading bit that is not stored. -/
def hidden : Nat := 0x10000000000000

/-- The parts `m` and `q` of a positive floating-point number. -/
def parts (x : Float) : Nat × Int :=
  let bits := x.toBits.toNat % 0x8000000000000000
  let exponent := bits / hidden
  let m := bits % hidden
  if exponent = 0 then (m, -1074) else (m + hidden, (exponent : Int) - 1075)

/-- The largest `k` with `10 ^ k` at most the fraction, searched downward from a bound. -/
def magnitude : Nat → Int → Nat × Nat → Int
  | 0, k, _ => k
  | fuel + 1, k, x => if below x (fraction 1 0 k) then magnitude fuel (k - 1) x else k

/-- Whether a fraction rounds to `m * 2 ^ q`. -/
def roundsTo (m : Nat) (q : Int) (x : Nat × Nat) : Bool :=
  let low := fraction (4 * m - if m = hidden && q != -1074 then 1 else 2) (q - 2) 0
  let high := fraction (4 * m + 2) (q - 2) 0
  if m % 2 = 0 then !below x low && !below high x else below low x && below x high

/-- The digits and the exponent of the last digit of the shortest decimal. -/
def search (m : Nat) (q : Int) (top : Int) : Nat → Nat → Nat × Int
  | 0, _ => (0, 0)
  | fuel + 1, digits =>
      let k := top - digits + 1
      let v := fraction m q 0
      let scaled := fraction m q (-k)
      let low := scaled.1 / scaled.2
      let good (c : Nat) : Bool := roundsTo m q (fraction c 0 k)
      let nearer := below (distance v (fraction low 0 k)) (distance v (fraction (low + 1) 0 k))
      if good low && (nearer || !good (low + 1)) then (low, k)
      else if good (low + 1) then (low + 1, k)
      else search m q top fuel (digits + 1)

/-- The text of a number that is not negative, written without an exponent. -/
def text (x : Float) : String :=
  let (m, q) := parts x
  if m = 0 then "0"
  else
    let (c, k) := search m q (magnitude 640 310 (fraction m q 0)) 17 1
    if 0 ≤ k then toString (c * Nat.pow 10 k.toNat)
    else
      let places := (-k).toNat
      let digits := toString c
      let digits := String.ofList (List.replicate (places + 1 - digits.length) '0') ++ digits
      String.ofList (digits.toList.take (digits.length - places)) ++ "."
        ++ String.ofList (digits.toList.drop (digits.length - places))

end TierCalc.ShortestDecimal
