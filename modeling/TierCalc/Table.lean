import TierCalc.Text.DisplayWidth
import TierCalc.Text.Numeral

/-!
# Bordered tables

Rows of cells drawn with `+`, `-` and `|`. Every column is as wide as its widest cell, measured in display columns,
with one blank on either side. A row may be shorter than the widest one: its missing cells are empty. The header, if
it has cells, is set off by a border line of its own.
-/

namespace TierCalc

/-- Where the text of a cell stands in its column. -/
inductive Align where
  | left
  | right
  | center
deriving DecidableEq, Repr

/-- The contents of a table and the alignment of its columns; columns without one are aligned left. -/
structure Table where
  header : List String := []
  rows : List (List String) := []
  align : List Align := []
  headerAlign : List Align := []
deriving DecidableEq, Repr

namespace Table

/-- The wider of each pair of columns. -/
def maxWidths : List Nat → List Nat → List Nat
  | [], ws => ws
  | vs, [] => vs
  | v :: vs, w :: ws => max v w :: maxWidths vs ws

def widths (t : Table) : List Nat :=
  (t.header :: t.rows).foldl (fun ws row => maxWidths ws (row.map Text.displayWidth)) []

/-- The cell's text with blanks that fill it up to `width` columns. -/
def fill (s : String) (width : Nat) (a : Align) : String :=
  let gap := width - Text.displayWidth s
  match a with
  | .left => s ++ Numeral.blanks gap
  | .right => Numeral.blanks gap ++ s
  | .center => Numeral.blanks (gap / 2) ++ s ++ Numeral.blanks (gap - gap / 2)

/-- The cells of a row after its opening bar. -/
def cells : List Nat → List String → List Align → String
  | [], _, _ => ""
  | w :: ws, row, aligns =>
      " " ++ fill (row.headD "") w (aligns.headD .left) ++ " |" ++ cells ws row.tail aligns.tail

def line (ws : List Nat) (row : List String) (aligns : List Align) : String :=
  "|" ++ cells ws row aligns ++ "\n"

/-- The line between parts of the table. -/
def border (ws : List Nat) : String :=
  "+" ++ String.join (ws.map fun w => String.ofList (List.replicate (w + 2) '-') ++ "+") ++ "\n"

def render (t : Table) : String :=
  let ws := t.widths
  border ws
    ++ (if t.header.isEmpty then "" else line ws t.header t.headerAlign ++ border ws)
    ++ String.join (t.rows.map fun row => line ws row t.align)
    ++ border ws

end Table

end TierCalc
