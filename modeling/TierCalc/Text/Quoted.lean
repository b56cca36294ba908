import TierCalc.Text.Numeral
import TierCalc.Text.Printable
import TierCalc.Text.Utf8

/-!
# Quoted text

A text is shown between quotes with every printable character as itself. The quote and the backslash get a
backslash; seven control characters have a letter of their own; every other character that is not printable is
written by its code: two hexadecimal digits below the blank and for the delete character, four up to U+FFFF, eight
above.

* `Quoted.text` uses double quotes and `Quoted.char` single quotes; each escapes only its own quote.
* `Quoted.bytes` quotes a byte string as the text that it encodes. A byte that belongs to no character is written by its
  two hexadecimal digits.
-/

namespace TierCalc.Quoted

/-- The letter that names a control character after a backslash. -/
def controlLetter? (c : Char) : Option Char :=
  match c.toNat with
  | 7 => some 'a'
  | 8 => some 'b'
  | 9 => some 't'
  | 10 => some 'n'
  | 11 => some 'v'
  | 12 => some 'f'
  | 13 => some 'r'
  | _ => none

/-- The code of a character that has no letter. -/
def escapedCode (c : Char) : String :=
  let n := c.toNat
  if n < 32 || n == 127 then "\\x" ++ Numeral.hexPadded 2 n
  else if n < 0x10000 then "\\u" ++ Numeral.hexPadded 4 n
  else "\\U" ++ Numeral.hexPadded 8 n

/-- A character as it stands between quotes of the given kind. -/
def escape (quote : Char) (c : Char) : String :=
  if c == quote || c == '\\' then String.ofList ['\\', c]
  else if Text.isPrintable c then String.singleton c
  else
    match controlLetter? c with
    | some l => String.ofList ['\\', l]
    | none => escapedCode c

def text (s : String) : String := "\"" ++ String.join (s.toList.map (escape '"')) ++ "\""

def bytes (b : Bytes) : String :=
  let piece : Utf8.Piece → String
    | .char c => escape '"' c
    | .stray b => "\\x" ++ Bytes.hexByte b
  "\"" ++ String.join ((Utf8.pieces b).map piece) ++ "\""

def char (c : Char) : String := "'" ++ escape '\'' c ++ "'"

end TierCalc.Quoted
