import TierCalc.Text.Bytes
import TierCalc.Text.Numeral
import TierCalc.Text.ShortestDecimal

/-!
# JSON values

Values with the members of objects in the order in which they are written, and their two written forms.

* `compress` writes no blanks, `pretty` one member or item a line, each level indented by two blanks.
* In strings, quotes, backslashes and control characters are escaped, and so are `<`, `>`, `&` and the two line
  separators of Unicode, so that the text can stand inside other documents.
-/

namespace TierCalc

inductive Json where
  | null
  | bool (b : Bool)
  | int (n : Int)
  | float (x : Float)
  | str (s : String)
  | arr (items : List Json)
  | obj (members : List (String × Json))
deriving Inhabited

namespace Json

/-- How a character stands in a string. -/
def escapeChar (c : Char) : String :=
  let code := "\\u" ++ Numeral.hexPadded 4 c.toNat
  match c with
  | '"' => "\\\""
  | '\\' => "\\\\"
  | '\n' => "\\n"
  | '\r' => "\\r"
  | '\t' => "\\t"
  | '\x08' => "\\b"
  | '\x0c' => "\\f"
  | '<' | '>' | '&' => code
  | _ => if c.toNat < 0x20 || c.toNat == 0x2028 || c.toNat == 0x2029 then code else c.toString

def quote (s : String) : String := "\"" ++ String.join (s.toList.map escapeChar) ++ "\""

/-- The text of a value that has no parts. -/
def scalar : Json → String
  | null => "null"
  | bool b => if b then "true" else "false"
  | int n => toString n
  | float x => ShortestDecimal.text x
  | str s => quote s
  | arr _ | obj _ => ""

mutual

/-- The text of a value without blanks. -/
def compress : Json → String
  | arr items => "[" ++ String.intercalate "," (compressItems items) ++ "]"
  | obj members => "\x7b" ++ String.intercalate "," (compressMembers members) ++ "\x7d"
  | v => scalar v

/-- The texts of items without blanks. -/
def compressItems : List Json → List String
  | [] => []
  | v :: rest => compress v :: compressItems rest

/-- The texts of members without blanks. -/
def compressMembers : List (String × Json) → List String
  | [] => []
  | (k, v) :: rest => (quote k ++ ":" ++ compress v) :: compressMembers rest

end

/-- Lines between brackets, or the brackets alone if there are none. -/
def block (left right : String) (indent : Nat) (lines : List String) : String :=
  if lines.isEmpty then left ++ right
  else
    let line (s : String) : String := "\n" ++ Numeral.blanks (2 * (indent + 1)) ++ s
    left ++ String.intercalate "," (lines.map line) ++ "\n" ++ Numeral.blanks (2 * indent) ++ right

mutual

/-- The text of a value over several lines, inside a number of levels. -/
def prettyAt (indent : Nat) : Json → String
  | arr items => block "[" "]" indent (prettyItems (indent + 1) items)
  | obj members => block "\x7b" "\x7d" indent (prettyMembers (indent + 1) members)
  | v => scalar v

def prettyItems (indent : Nat) : List Json → List String
  | [] => []
  | v :: rest => prettyAt indent v :: prettyItems indent rest

def prettyMembers (indent : Nat) : List (String × Json) → List String
  | [] => []
  | (k, v) :: rest => (quote k ++ ": " ++ prettyAt indent v) :: prettyMembers indent rest

end

/-- The text of a value over several lines. -/
def pretty (v : Json) : String := v.prettyAt 0

end Json

end TierCalc
