/-!
# Numerals

Decimal and hexadecimal texts of whole numbers, padding to a width, and strict readers: a reader accepts digits of
its base and nothing else, and the empty text is no numeral.
-/

namespace TierCalc.Numeral

/-- A number in hexadecimal, lowercase, without leading zeros. -/
def hex (n : Nat) : String := String.ofList (Nat.toDigits 16 n)

/-- A whole number in hexadecimal: a minus sign, if negative, and the digits of its size. -/
def hexInt (n : Int) : String := if n < 0 then "-" ++ hex n.natAbs else hex n.natAbs

/-- The text with copies of `c` in front, at least `width` characters long. -/
def padLeft (c : Char) (width : Nat) (s : String) : String :=
  String.ofList (List.replicate (width - s.length) c) ++ s

/-- The number in hexadecimal with zeros in front, at least `width` digits long. -/
def hexPadded (width : Nat) (n : Nat) : String := padLeft '0' width (hex n)

/-- A decimal number with blanks in front, at least `width` characters long. -/
def decPadded (width : Nat) (n : Int) : String := padLeft ' ' width (toString n)

def blanks (n : Nat) : String := String.ofList (List.replicate n ' ')

/-- The value of a digit in a base up to 36, letters in either case. -/
def digitValue? (base : Nat) (c : Char) : Option Nat :=
  let v :=
    if '0' ≤ c ∧ c ≤ '9' then some (c.toNat - 48)
    else if 'a' ≤ c ∧ c ≤ 'z' then some (c.toNat - 87)
    else if 'A' ≤ c ∧ c ≤ 'Z' then some (c.toNat - 55)
    else none
  v.filter (· < base)

/-- The number that a run of digits denotes, continuing from `acc`. -/
def ofDigits? (base : Nat) : Nat → List Char → Option Nat
  | acc, [] => some acc
  | acc, c :: rest =>
      match digitValue? base c with
      | none => none
      | some v => ofDigits? base (acc * base + v) rest

/-- The number that a nonempty text of digits denotes. -/
def nat? (base : Nat) (s : String) : Option Nat :=
  match s.toList with
  | [] => none
  | cs => ofDigits? base 0 cs

end TierCalc.Numeral
