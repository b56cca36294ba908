import TierCalc.Text.Utf8

/-!
# Blank characters

The characters that separate words: blank, tabulators, line and page ends, and the spaces of Unicode.
-/

namespace TierCalc.Text

def isBlank (c : Char) : Bool :=
  let n := c.toNat
  (9 ≤ n && n ≤ 13) || n == 0x20 || n == 0x85 || n == 0xA0 || n == 0x1680 || (0x2000 ≤ n && n ≤ 0x200A)
    || n == 0x2028 || n == 0x2029 || n == 0x202F || n == 0x205F || n == 0x3000

/-- The text without blanks at its ends. -/
def trim (s : String) : String :=
  String.ofList ((s.toList.dropWhile isBlank).reverse.dropWhile isBlank).reverse

/-- Whether a piece of a byte string is a blank character. -/
def isBlankPiece : Utf8.Piece → Bool
  | .char c => isBlank c
  | .stray _ => false

/-- The byte string without blanks at its ends. -/
def trimBytes (b : Bytes) : Bytes :=
  (((Utf8.pieces b).dropWhile isBlankPiece).reverse.dropWhile isBlankPiece).reverse.flatMap Utf8.Piece.bytes

end TierCalc.Text
