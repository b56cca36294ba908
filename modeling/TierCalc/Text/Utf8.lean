import TierCalc.Text.Bytes

/-!
# Text among bytes

A byte string read as far as it is UTF-8. It falls into characters and stray bytes: where a character is encoded it is
read as a whole, and where none is, one byte is taken by itself.
-/

namespace TierCalc.Utf8

/-- What stands at a place of a byte string. -/
inductive Piece where
  | char (c : Char)
  | stray (b : UInt8)
deriving DecidableEq, Repr

/-- The character that starts a byte string and the number of its bytes. No encoding is the start of another one, so
the shortest prefix that is a text is a single character. -/
def first? (bytes : Bytes) : Option (Char × Nat) :=
  [1, 2, 3, 4].findSome? fun n =>
    match Bytes.toString? (bytes.take n) with
    | some s => s.toList.head?.map (·, n)
    | none => none

/-- The pieces of a byte string after a number of bytes that are passed over. -/
def piecesAfter : Nat → Bytes → List Piece
  | _, [] => []
  | skip + 1, _ :: rest => piecesAfter skip rest
  | 0, b :: rest =>
      match first? (b :: rest) with
      | some (c, n) => .char c :: piecesAfter (n - 1) rest
      | none => .stray b :: piecesAfter 0 rest

/-- The pieces of a byte string. -/
def pieces (bytes : Bytes) : List Piece := piecesAfter 0 bytes

def Piece.bytes : Piece → Bytes
  | char c => Bytes.ofString c.toString
  | stray b => [b]

/-- The character that is shown for a piece; a stray byte is shown as the replacement character. -/
def Piece.shown : Piece → Char
  | char c => c
  | stray _ => '\ufffd'

/-- The text that is shown for a byte string. -/
def shown (bytes : Bytes) : String := String.ofList ((pieces bytes).map Piece.shown)

end TierCalc.Utf8
