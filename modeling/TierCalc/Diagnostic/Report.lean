import TierCalc.Text.Bytes
import TierCalc.Text.Numeral

/-!
# Error reports

A report is the long form of an error: a heading, the place, an excerpt of the source with carets under the fault,
and a hint or a note. The margin is two columns wide, and from line 100 on as wide as the line number.

Excerpts are bytes of the source as they are, so a report is a byte string.
-/

namespace TierCalc

/-- A line of an excerpt; the main one gets the carets. -/
structure Report.Line where
  number : Int
  text : Bytes
  isMain : Bool
deriving DecidableEq, Repr

/-- The parts of a report. An empty text or a place outside the source is left out. -/
structure Report where
  code : String := ""
  kind : String := ""
  message : String := ""
  file : String := ""
  line : Int := 0
  column : Int := 0
  endColumn : Int := 0
  excerpt : List Report.Line := []
  hint : String := ""
  note : String := ""
deriving DecidableEq, Repr

/-- A way to set text off in a terminal: the codes that switch it on. -/
structure Style where
  codes : List Nat
deriving DecidableEq, Repr

namespace Style

/-- A sequence that switches the given codes. -/
def switch (codes : List Nat) : String := "\x1b[" ++ ";".intercalate (codes.map toString) ++ "m"

/-- The code that switches one off again: bold has its own, all others share one. -/
def off (code : Nat) : Nat := if code = 1 then 22 else 0

def wrap (s : Style) (text : String) : String := switch s.codes ++ text ++ switch (s.codes.map off)

/-- The heading's label. -/
def label : Style := ⟨[91, 1]⟩

/-- The colon after the heading's label. -/
def colon : Style := ⟨[31]⟩

/-- Codes and the bars of the margin. -/
def dim : Style := ⟨[90]⟩

def place : Style := ⟨[36]⟩

def caret : Style := ⟨[91]⟩

/-- The word before a hint. -/
def hint : Style := ⟨[93]⟩

def note : Style := ⟨[94]⟩

end Style

namespace Report

/-- The text, in a style if colour is wanted. -/
def paint (color : Bool) (s : Style) (text : String) : String := if color then s.wrap text else text

/-- The width of the margin. -/
def marginWidth (r : Report) : Nat := if r.line ≥ 100 then (toString r.line).length else 2

/-- The number of carets: from the first column to the last one, if there is a last one beyond it. -/
def caretCount (r : Report) : Nat :=
  if r.endColumn > r.column then (r.endColumn - r.column + 1).toNat else 1

/-- The first line: label, code and message. -/
def heading (color : Bool) (r : Report) : String :=
  paint color .label (if r.kind == "" then "error" else r.kind)
    ++ (if r.code == "" then "" else paint color .dim ("[" ++ r.code ++ "]"))
    ++ paint color .colon ": " ++ r.message ++ "\n"

/-- The line with the place, if the report has one. -/
def placeLine (color : Bool) (r : Report) : String :=
  if r.line > 0 then
    let loc := toString r.line ++ ":" ++ toString r.column
    let loc := if r.file == "" then loc else r.file ++ ":" ++ loc
    Numeral.blanks r.marginWidth ++ paint color .place "-->" ++ " " ++ paint color .place loc ++ "\n"
  else ""

/-- The line of carets under the main line; columns count from one. -/
def caretLine (color : Bool) (r : Report) : String :=
  Numeral.blanks r.marginWidth ++ paint color .dim " | " ++ Numeral.blanks (r.column - 1).toNat
    ++ paint color .caret (String.ofList (List.replicate r.caretCount '^')) ++ "\n"

/-- One line of the excerpt, with its carets. -/
def excerptLine (color : Bool) (r : Report) (l : Line) : Bytes :=
  Bytes.ofString (Numeral.decPadded r.marginWidth l.number ++ paint color .dim " | ") ++ l.text
    ++ Bytes.ofString ("\n" ++ (if l.isMain && r.column > 0 then r.caretLine color else ""))

/-- The excerpt under an opening bar. -/
def excerptLines (color : Bool) (r : Report) : Bytes :=
  if r.excerpt.isEmpty then []
  else
    Bytes.ofString (Numeral.blanks r.marginWidth ++ paint color .dim " |" ++ "\n")
      ++ r.excerpt.flatMap (r.excerptLine color)

/-- A closing line with a word before its text, left out if the text is empty. -/
def remark (color : Bool) (r : Report) (s : Style) (word text : String) : String :=
  if text == "" then ""
  else Numeral.blanks r.marginWidth ++ paint color .dim " = " ++ paint color s word ++ text ++ "\n"

def render (color : Bool) (r : Report) : Bytes :=
  Bytes.ofString (r.heading color ++ r.placeLine color) ++ r.excerptLines color
    ++ Bytes.ofString (r.remark color .hint "hint: " r.hint ++ r.remark color .note "note: " r.note)

end Report

end TierCalc
