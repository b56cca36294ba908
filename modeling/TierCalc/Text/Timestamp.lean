/-!
# Timestamps

Dates, and dates with a time of day. A date is a year of four digits, a month and a day of one or two. A time is an
hour, a minute and a second of one or two digits each, and may have a fraction of a second. After `T` or `t` a time has
a zone; after blanks it has none.
-/

namespace TierCalc.Timestamp

/-- A number of one or two digits, and what follows it. -/
def number? : List Char → Option (Nat × List Char)
  | a :: b :: rest =>
      if !a.isDigit then none
      else if b.isDigit then some ((a.toNat - 48) * 10 + (b.toNat - 48), rest)
      else some (a.toNat - 48, b :: rest)
  | [a] => if a.isDigit then some (a.toNat - 48, []) else none
  | [] => none

/-- What follows a character. -/
def after? (c : Char) : List Char → Option (List Char)
  | x :: rest => if x = c then some rest else none
  | [] => none

/-- Whether a year has a day more. -/
def isLeap (year : Nat) : Bool := year % 4 == 0 && (year % 100 != 0 || year % 400 == 0)

/-- The number of days of a month. -/
def daysIn (year month : Nat) : Nat :=
  if month = 2 then (if isLeap year then 29 else 28)
  else if [4, 6, 9, 11].contains month then 30
  else 31

/-- What follows a date. -/
def afterDate? (cs : List Char) : Option (List Char) := do
  let year := cs.takeWhile Char.isDigit
  guard (year.length = 4)
  let y := year.foldl (fun n c => n * 10 + (c.toNat - 48)) 0
  let (month, rest) ← number? (← after? '-' (cs.drop 4))
  guard (1 ≤ month ∧ month ≤ 12)
  let (day, rest) ← number? (← after? '-' rest)
  guard (1 ≤ day ∧ day ≤ daysIn y month)
  return rest

/-- What follows a fraction, if there is one. -/
def afterFraction : List Char → List Char
  | mark :: d :: rest =>
      if (mark == '.' || mark == ',') && d.isDigit then rest.dropWhile Char.isDigit else mark :: d :: rest
  | cs => cs

/-- What follows a time of day. -/
def afterTime? (cs : List Char) : Option (List Char) := do
  let (hour, rest) ← number? cs
  let (minute, rest) ← number? (← after? ':' rest)
  let (second, rest) ← number? (← after? ':' rest)
  guard (hour < 24 ∧ minute < 60 ∧ second < 60)
  return afterFraction rest

/-- Whether characters are a zone: `Z`, or a sign, two digits for hours, a colon and two digits for minutes. -/
def isZone : List Char → Bool
  | ['Z'] => true
  | [sign, a, b, ':', c, d] =>
      (sign == '+' || sign == '-') && [a, b, c, d].all Char.isDigit
        && (a.toNat - 48) * 10 + (b.toNat - 48) ≤ 24 && (c.toNat - 48) * 10 + (d.toNat - 48) ≤ 60
  | _ => false

def isTimestamp (cs : List Char) : Bool :=
  match afterDate? cs with
  | none => false
  | some [] => true
  | some (c :: rest) =>
      if c = 'T' || c = 't' then (afterTime? rest).any isZone
      else c = ' ' && (afterTime? (rest.dropWhile (· == ' '))).any List.isEmpty

end TierCalc.Timestamp
