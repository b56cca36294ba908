/-!
# Positions in source text

A position counts bytes and lines from zero; what is shown to a reader counts from one. The start of the position's
line is kept with it, so that an excerpt needs no search.

Positions are exact numbers. Where one has to fit into 64-bit fields, `wrapped` is its form there.
-/

namespace TierCalc

/-- A place in a source: byte offset, offset of the start of its line, line, column, and the file's name. -/
structure Position where
  offset : Int := 0
  lineStart : Int := 0
  line : Int := 0
  column : Int := 0
  file : String := ""
deriving DecidableEq, Repr, Inhabited

namespace Position

def lineNumber (p : Position) : Int := p.line + 1

def columnNumber (p : Position) : Int := p.column + 1

/-- The position `n` bytes further on the same line. -/
def advance (p : Position) (n : Int) : Position :=
  { p with offset := p.offset + n, column := p.column + n }

/-- A number as a signed 64-bit field holds it. -/
def wrap (n : Int) : Int := (Int64.ofInt n).toInt

/-- The position with every number in a 64-bit field. -/
def wrapped (p : Position) : Position :=
  { p with offset := wrap p.offset, lineStart := wrap p.lineStart, line := wrap p.line, column := wrap p.column }

/-- Whether anything but the line start tells the position from an unset one. -/
def isSet (p : Position) : Bool :=
  p.file != "" || p.line > 0 || p.column > 0 || p.offset > 0

end Position

end TierCalc
