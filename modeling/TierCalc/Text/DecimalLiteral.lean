import TierCalc.Text.Numeral

/-!
# Decimal literals

Decimal numbers with an optional point and an optional exponent, and the range of 64-bit floating-point numbers: a
literal is in range if it does not round to infinity.
-/

namespace TierCalc.DecimalLiteral

/-- A number `digits / 10 ^ places * 10 ^ exponent`. -/
structure Literal where
  digits : Nat
  places : Nat := 0
  exponent : Int := 0
deriving DecidableEq, Repr

/-- Whether every underscore stands between two digits. -/
def spaced : Bool → List Char → Bool
  | _, [] => true
  | afterDigit, c :: rest =>
      if c = '_' then afterDigit && rest.head?.any Char.isDigit && spaced false rest else spaced c.isDigit rest

/-- The size of an exponent. Digits beyond the fifth do not count. -/
def exponentSize (ds : List Char) : Nat :=
  ds.foldl (fun e c => if e < 10000 then e * 10 + (c.toNat - 48) else e) 0

/-- The exponent that ends a literal, and zero if there is none. -/
def exponent? : List Char → Option Int
  | [] => some 0
  | mark :: rest =>
      let (negative, ds) : Bool × List Char :=
        match rest with
        | '-' :: ds => (true, ds)
        | '+' :: ds => (false, ds)
        | ds => (false, ds)
      if (mark == 'e' || mark == 'E') && !ds.isEmpty && ds.all Char.isDigit then
        some (if negative then -(exponentSize ds : Int) else exponentSize ds)
      else none

/-- The literal without a sign that characters are: digits before or after a point, or both, and an exponent. -/
def parse? (cs : List Char) : Option Literal :=
  let whole := cs.takeWhile Char.isDigit
  let rest := cs.dropWhile Char.isDigit
  let (part, rest) : List Char × List Char :=
    match rest with
    | '.' :: more => (more.takeWhile Char.isDigit, more.dropWhile Char.isDigit)
    | _ => ([], rest)
  if whole.isEmpty && part.isEmpty then none
  else
    (exponent? rest).map fun e =>
      { digits := (Numeral.ofDigits? 10 0 (whole ++ part)).getD 0, places := part.length, exponent := e }

/-- The least number that rounds to infinity. -/
def overflow : Nat := Nat.pow 2 1024 - Nat.pow 2 970

/-- Whether a literal is in range. The power of ten that is just above the number decides unless it is the one that is
just above the limit. -/
def Literal.inRange (l : Literal) : Bool :=
  if l.digits = 0 then true
  else
    let shift : Int := l.exponent - l.places
    let size : Int := (toString l.digits).length + shift
    if size ≤ 308 then true
    else if 309 < size then false
    else if 0 ≤ shift then l.digits * Nat.pow 10 shift.toNat < overflow
    else l.digits < overflow * Nat.pow 10 (-shift).toNat

end TierCalc.DecimalLiteral
