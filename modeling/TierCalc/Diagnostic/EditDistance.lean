/-!
# Edit distance

The least number of single elements to insert, delete or replace to turn one list into another, computed row by row:
the row of `b` has for every beginning of `a` its distance to `b`.
-/

namespace TierCalc.EditDistance

variable {α : Type} [DecidableEq α]

/-- The entries of a row after its first. `diagonal` is the entry above and to the left, `above` those above, and
`left` the entry before. -/
def entries (c : α) : List α → (diagonal : Nat) → (above : List Nat) → (left : Nat) → List Nat
  | x :: xs, diagonal, up :: ups, left =>
      let v := min (min (up + 1) (left + 1)) (diagonal + if x = c then 0 else 1)
      v :: entries c xs up ups v
  | _, _, _, _ => []

/-- The row of `b ++ [c]` from the row of `b`. -/
def nextRow (a : List α) (row : List Nat) (c : α) : List Nat :=
  match row with
  | [] => []
  | d :: ups => (d + 1) :: entries c a d ups (d + 1)

/-- The row of the empty list. -/
def firstRow (a : List α) : List Nat := List.range (a.length + 1)

def lastEntry (a b : List α) : Nat := (b.foldl (nextRow a) (firstRow a)).getLastD 0

/-- The edit distance of two lists. The rows are those of the shorter one. -/
def distance (a b : List α) : Nat := if a.length > b.length then lastEntry b a else lastEntry a b

end TierCalc.EditDistance
