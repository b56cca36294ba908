import TierCalc.Text.Bytes
import TierCalc.Text.Numeral

/-!
# Durations

A duration is a signed number of nanoseconds.

* `Duration.text` writes it in its largest unit: hours, minutes and seconds from one second on, and milliseconds,
  microseconds or nanoseconds below. Fractions keep as many digits as they need.
* `Duration.parse` reads a sequence of decimal numbers with a unit each, such as `1h30m` or `-1.5s`.
-/

namespace TierCalc

abbrev Duration := Int64

namespace Duration

/-- The digits of `n / 10 ^ places` after the point, with the point, or nothing if there are none. -/
def fraction (n places : Nat) : String :=
  let digits := (Numeral.padLeft '0' places (toString (n % Nat.pow 10 places))).toList
  match (digits.reverse.dropWhile (· == '0')).reverse with
  | [] => ""
  | ds => "." ++ String.ofList ds

/-- The number `n / 10 ^ places` with only the digits that it needs. -/
def scaled (n places : Nat) : String := toString (n / Nat.pow 10 places) ++ fraction n places

/-- The text of a number of nanoseconds without its sign. -/
def magnitudeText (u : Nat) : String :=
  if u = 0 then "0s"
  else if u < 1000 then toString u ++ "ns"
  else if u < 1000000 then scaled u 3 ++ "µs"
  else if u < 1000000000 then scaled u 6 ++ "ms"
  else
    let minutes := u / 60000000000
    let seconds := scaled (u % 60000000000) 9 ++ "s"
    if minutes = 0 then seconds
    else if minutes < 60 then toString minutes ++ "m" ++ seconds
    else toString (minutes / 60) ++ "h" ++ toString (minutes % 60) ++ "m" ++ seconds

def text (d : Duration) : String :=
  let n := d.toInt
  if n < 0 then "-" ++ magnitudeText n.natAbs else magnitudeText n.natAbs

/-- The nanoseconds in a unit. -/
def unit? (s : String) : Option Nat :=
  match s with
  | "ns" => some 1
  | "us" | "µs" | "μs" => some 1000
  | "ms" => some 1000000
  | "s" => some 1000000000
  | "m" => some 60000000000
  | "h" => some 3600000000000
  | _ => none

/-- Whether a character belongs to a number. -/
def isNumberChar (c : Char) : Bool := c.isDigit || c == '.'

/-- The reasons for which a text is no duration. -/
inductive ParseError where
  | invalid
  | missingUnit
  | unknownUnit (unit : String)
deriving DecidableEq, Repr

/-- A text between quotes, with every byte beyond printable ASCII as two hexadecimal digits. -/
def quoted (s : String) : String :=
  let char (c : Char) : String :=
    if c == '"' || c == '\\' then "\\" ++ c.toString
    else if c < ' ' || 128 ≤ c.toNat then
      String.join ((Bytes.ofString c.toString).map fun b => "\\x" ++ Bytes.hexByte b)
    else c.toString
  "\"" ++ String.join (s.toList.map char) ++ "\""

def ParseError.message (s : String) : ParseError → String
  | invalid => "time: invalid duration " ++ quoted s
  | missingUnit => "time: missing unit in duration " ++ quoted s
  | unknownUnit u => "time: unknown unit " ++ quoted u ++ " in duration " ++ quoted s

/-- The largest size, which only a negative duration has. -/
def limit : Nat := 0x8000000000000000

/-- The digits of a fraction as a number, and the number that one stands for with them: ten for each digit. Digits count
until the number would leave the signed 64-bit words; from then on they are passed over. The scale is a floating-point
number and grows digit by digit. -/
def digits : List Char → Nat × Float → Nat × Float
  | [], p => p
  | c :: rest, (n, scale) =>
      let next := n * 10 + (c.toNat - 48)
      if n ≤ (limit - 1) / 10 ∧ next ≤ limit then digits rest (next, scale * 10) else (n, scale)

/-- The nanoseconds of a fraction of a unit. The share of the unit is a floating-point number, and what is left of the
product below the nanosecond is cut off. -/
def share (unit : Nat) (fraction : List Char) : Nat :=
  let (n, scale) := digits fraction (0, 1)
  (Float.ofNat n * (Float.ofNat unit / scale)).toUInt64.toNat

/-- The value of one number with its unit, and the text after it. The number has digits before or after its point. -/
def component (cs : List Char) : Except ParseError (Nat × List Char) :=
  let whole := cs.takeWhile Char.isDigit
  let rest := cs.dropWhile Char.isDigit
  let (part, rest) :=
    match rest with
    | '.' :: more => (more.takeWhile Char.isDigit, more.dropWhile Char.isDigit)
    | _ => ([], rest)
  if whole.isEmpty && part.isEmpty then .error .invalid
  else
    let unit := String.ofList (rest.takeWhile fun c => !isNumberChar c)
    let w := (Numeral.ofDigits? 10 0 whole).getD 0
    if limit < w then .error .invalid
    else if unit == "" then .error .missingUnit
    else
      match unit? unit with
      | none => .error (.unknownUnit unit)
      | some u =>
          let v := w * u + share u part
          if limit < w * u ∨ limit < v then .error .invalid
          else .ok (v, rest.dropWhile fun c => !isNumberChar c)

/-- The sum of a sequence of numbers with units, at most `limit`. Sums are 64-bit words, so twice the limit is
nothing. `fuel` is at least the length of the text. -/
def components : Nat → Nat → List Char → Except ParseError Nat
  | _, acc, [] => .ok acc
  | 0, _, _ => .error .invalid
  | fuel + 1, acc, cs =>
      match component cs with
      | .error e => .error e
      | .ok (v, rest) =>
          let sum := (acc + v) % UInt64.size
          if limit < sum then .error .invalid else components fuel sum rest

/-- The duration that a text denotes: an optional sign, then `0` alone or numbers with units. The size is below
`limit`, or equal to it with a minus sign. -/
def parse (s : String) : Except ParseError Duration :=
  let (negative, cs) :=
    match s.toList with
    | '-' :: rest => (true, rest)
    | '+' :: rest => (false, rest)
    | cs => (false, cs)
  match cs with
  | [] => .error .invalid
  | ['0'] => .ok 0
  | _ =>
      match components cs.length 0 cs with
      | .error e => .error e
      | .ok n =>
          if negative then .ok (Int64.ofInt (-n))
          else if n < limit then .ok (Int64.ofNat n) else .error .invalid

end Duration

end TierCalc
