import TierCalc.Text.Numeral

/-!
# Integer literals

Integers as settings write them: an optional sign, then decimal digits, or digits after `0x`, `0o`, `0b` or a leading
zero, which stands for base eight. Single underscores may stand between digits, and after the mark of a base.

A literal is read from left to right. A number that leaves the 64-bit words is too large from the digit on at which it
does so, whatever follows, and a character that is no digit is looked at only if the number was small enough before it.
-/

namespace TierCalc.IntegerLiteral

/-- What can be wrong with a literal. -/
inductive Problem where
  | malformed
  | tooLarge
deriving DecidableEq, Repr

def Problem.message : Problem → String
  | malformed => "invalid syntax"
  | tooLarge => "value out of range"

/-- Whether underscores stand only between digits. A mark of a base counts as a digit. -/
def spaced : Bool → List Char → Bool
  | _, [] => true
  | afterDigit, '_' :: rest =>
      match rest with
      | [] => false
      | c :: _ => afterDigit && c != '_' && spaced false rest
  | _, _ :: rest => spaced true rest

/-- The number of digits in a base that continue a number; underscores are passed over. -/
def digits (base : Nat) : Nat → List Char → Except Problem Nat
  | acc, [] => .ok acc
  | acc, c :: rest =>
      if c = '_' then digits base acc rest
      else
        match Numeral.digitValue? base c with
        | none => .error .malformed
        | some v =>
            let n := acc * base + v
            if n < UInt64.size then digits base n rest else .error .tooLarge

/-- The base of a literal without a sign, and its digits. -/
def baseOf : List Char → Nat × List Char
  | '0' :: mark :: c :: rest =>
      match mark.toLower with
      | 'x' => (16, c :: rest)
      | 'o' => (8, c :: rest)
      | 'b' => (2, c :: rest)
      | _ => (8, mark :: c :: rest)
  | '0' :: rest => (8, rest)
  | cs => (10, cs)

/-- The number below two to the power of 64 that a literal without a sign denotes. -/
def magnitude (cs : List Char) : Except Problem Nat :=
  let (base, ds) := baseOf cs
  match digits base 0 ds with
  | .error p => .error p
  | .ok n => if cs.isEmpty || !spaced false cs then .error .malformed else .ok n

/-- The unsigned 64-bit word that a text denotes. -/
def unsigned (s : String) : Except Problem Nat := magnitude s.toList

/-- The sign of a text, as whether it is negative, and the rest. -/
def sign : List Char → Bool × List Char
  | '-' :: rest => (true, rest)
  | '+' :: rest => (false, rest)
  | cs => (false, cs)

/-- An integer of a given size as a signed 64-bit word. -/
def word (negative : Bool) (size : Nat) : Except Problem Int :=
  let n : Int := if negative then -size else size
  if Int64.minValue.toInt ≤ n ∧ n ≤ Int64.maxValue.toInt then .ok n else .error .tooLarge

/-- The signed 64-bit word that a text denotes. -/
def signed (s : String) : Except Problem Int :=
  let (negative, cs) := sign s.toList
  match magnitude cs with
  | .error p => .error p
  | .ok n => word negative n

end TierCalc.IntegerLiteral
