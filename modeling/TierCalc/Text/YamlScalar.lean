import TierCalc.Text.DecimalLiteral
import TierCalc.Text.IntegerLiteral
import TierCalc.Text.Timestamp

/-!
# Scalars of YAML

How a string is written as the value of a key. There are four styles:

* **Plain**, without any marks, for what a reader takes for the same string again.
* **Single quotes** for what would be read as a string but for some character of it. Line separators stay as they are,
  and what follows one is indented.
* **Double quotes** for what a reader would take for something else than a string, and for characters that have to be
  escaped.
* **Literal**, line by line after a bar, for strings with line feeds.
-/

namespace TierCalc.YamlScalar

/-! ## What plain text is read as -/

/-- Words that readers take for a truth value, for nothing or for a special number. -/
def words : List String :=
  ["", "~", "null", "Null", "NULL", "true", "True", "TRUE", "false", "False", "FALSE",
   ".nan", ".NaN", ".NAN", ".inf", ".Inf", ".INF", "+.inf", "+.Inf", "+.INF", "-.inf", "-.Inf", "-.INF"]

/-- Words that older readers take for a truth value. -/
def oldWords : List String :=
  ["y", "Y", "yes", "Yes", "YES", "on", "On", "ON", "n", "N", "no", "No", "NO", "off", "Off", "OFF"]

/-- Whether characters are a signed 64-bit word in a base. -/
def isWordIn (base : Nat) (cs : List Char) : Bool :=
  let (negative, ds) := IntegerLiteral.sign cs
  match IntegerLiteral.digits base 0 ds with
  | .ok n => !ds.isEmpty && (IntegerLiteral.word negative n).isOk
  | .error _ => false

/-- Whether characters without underscores are an integer. -/
def isInteger (cs : List Char) : Bool :=
  let s := String.ofList cs
  (IntegerLiteral.signed s).isOk || (IntegerLiteral.unsigned s).isOk ||
    match cs with
    | '0' :: 'b' :: rest => isWordIn 2 rest
    | '0' :: 'o' :: rest => isWordIn 8 rest
    | _ => false

/-- Whether characters without a sign and underscores are a floating-point number. -/
def isFloat (cs : List Char) : Bool := (DecimalLiteral.parse? cs).any (·.inRange)

/-- Whether characters are the groups of a number in base sixty after its first one, of which one was `seen`, and a
fraction. -/
def isGroups (seen : Bool) : List Char → Bool
  | [] => seen
  | ':' :: a :: rest =>
      a.isDigit &&
        match rest with
        | b :: more => if b.isDigit then a ≤ '5' && isGroups true more else isGroups true (b :: more)
        | [] => true
  | '.' :: rest => seen && rest.all fun c => c.isDigit || c == '_'
  | _ => false

/-- Whether characters are a number in base sixty, as older readers take it. -/
def isSexagesimal (cs : List Char) : Bool :=
  let ds := (IntegerLiteral.sign cs).2
  ds.head?.any Char.isDigit && isGroups false (ds.dropWhile fun c => c.isDigit || c == '_')

/-- Whether a reader takes a plain string for something else. -/
def resolves (s : String) : Bool :=
  words.contains s || oldWords.contains s ||
    match s.toList with
    | [] => true
    | '.' :: rest =>
        DecimalLiteral.spaced false ('.' :: rest) && isFloat (('.' :: rest).filter (· != '_'))
    | c :: rest =>
        let plain := (c :: rest).filter (· != '_')
        (c.isDigit || c == '+' || c == '-') &&
          (Timestamp.isTimestamp (c :: rest) || isInteger plain || isFloat (IntegerLiteral.sign plain).2
            || isSexagesimal (c :: rest))

/-! ## Which styles a string admits -/

/-- Whether a character can stand without being escaped. -/
def isPrintable (c : Char) : Bool :=
  let n := c.toNat
  n == 0xA || (0x20 ≤ n && n ≤ 0x7E) || (0xA0 ≤ n && n ≤ 0xD7FF) || (0xE000 ≤ n && n ≤ 0xFFFD && n != 0xFEFF)

/-- Whether a character ends a line. -/
def isBreak (c : Char) : Bool := [0xA, 0xD, 0x85, 0x2028, 0x2029].contains c.toNat

/-- Whether a character is a space or a tab. -/
def isBlank (c : Char) : Bool := c == ' ' || c == '\t'

/-- Whether a text ends or goes on with a blank. -/
def blankNext (cs : List Char) : Bool := cs.head?.all isBlank

/-- Whether a character of one kind is followed by one of another. -/
def follows (p q : Char → Bool) : List Char → Bool
  | a :: b :: rest => (p a && q b) || follows p q (b :: rest)
  | _ => false

/-- Whether a colon or a number sign after the character `before` stands where it means something. -/
def marksInside (before : Char) : List Char → Bool
  | [] => false
  | c :: rest =>
      (c == ':' && blankNext rest) || (c == '#' && (isBlank before || isBreak before || before.toNat == 0))
        || marksInside c rest

/-- Whether a string has characters where they mean something. -/
def hasMarks (s : String) : Bool :=
  match s.toList with
  | [] => false
  | c :: rest =>
      s.startsWith "---" || s.startsWith "..." || "#,[]\x7b\x7d&*!|>'\"%@`".toList.contains c
        || ("?:-".toList.contains c && blankNext rest) || marksInside c rest

/-- Whether a string has characters that only double quotes or a literal can hold. -/
def hasSpecial (s : String) : Bool := s.toList.any fun c => c != '\t' && !isPrintable c

/-- Whether a space stands next to the end of a line, before it or after it. -/
def hasSpaceAtBreak (s : String) : Bool :=
  follows (· == ' ') isBreak s.toList || follows isBreak (· == ' ') s.toList

/-- Whether single quotes can hold a string. -/
def allowsSingle (s : String) : Bool := !(hasSpaceAtBreak s || s.toList.contains '\t' || hasSpecial s)

/-- Whether a string can stand without marks. -/
def allowsPlain (s : String) : Bool :=
  allowsSingle s && !s.toList.any isBreak && !s.startsWith " " && !s.endsWith " " && !hasMarks s

/-- Whether a string can be written line by line. -/
def allowsLiteral (s : String) : Bool :=
  !(s.endsWith " " || follows (· == ' ') isBreak s.toList || hasSpecial s)

/-- The styles. -/
inductive Style where
  | plain
  | single
  | double
  | literal
deriving DecidableEq, Repr

def style (s : String) : Style :=
  if s.toList.contains '\n' then (if allowsLiteral s then .literal else .double)
  else if resolves s then .double
  else if allowsPlain s then .plain
  else if allowsSingle s then .single
  else .double

/-! ## The texts -/

/-- The indentation of lines that continue a value. -/
def indent : String := "  "

/-- The letter that names a character after a backslash. -/
def escapeLetter? (c : Char) : Option Char :=
  match c.toNat with
  | 0x0 => some '0'
  | 0x7 => some 'a'
  | 0x8 => some 'b'
  | 0x9 => some 't'
  | 0xA => some 'n'
  | 0xB => some 'v'
  | 0xC => some 'f'
  | 0xD => some 'r'
  | 0x1B => some 'e'
  | 0x22 => some '"'
  | 0x5C => some '\\'
  | 0x85 => some 'N'
  | 0xA0 => some '_'
  | 0x2028 => some 'L'
  | 0x2029 => some 'P'
  | _ => none

/-- A character after a backslash: its letter, or its code in two, four or eight hexadecimal digits. -/
def escaped (c : Char) : String :=
  let code (mark : String) (width : Nat) : String :=
    mark ++ String.ofList ((Numeral.hexPadded width c.toNat).toList.map Char.toUpper)
  "\\" ++
    match escapeLetter? c with
    | some l => l.toString
    | none => if c.toNat ≤ 0xFF then code "x" 2 else if c.toNat ≤ 0xFFFF then code "u" 4 else code "U" 8

/-- A string between double quotes. If it starts with a byte order mark all of its characters are escaped. -/
def double (s : String) : String :=
  let marked := s.toList.head? == some '\ufeff'
  let char (c : Char) : String :=
    if marked || !isPrintable c || isBreak c || c == '"' || c == '\\' then escaped c else c.toString
  "\"" ++ String.join (s.toList.map char) ++ "\""

/-- Characters with indentation after every end of a line; `start` tells whether a line starts. -/
def indented (char : Char → String) (start : Bool) : List Char → String
  | [] => ""
  | c :: rest =>
      if isBreak c then c.toString ++ indented char true rest
      else (if start then indent else "") ++ char c ++ indented char false rest

/-- A string between single quotes, in which a quote is written twice. -/
def single (s : String) : String :=
  "'" ++ indented (fun c => if c == '\'' then "''" else c.toString) false s.toList ++ "'"

/-- What stands after the bar of a literal: the indentation where the first line would not show it, and what becomes
of the ends of lines at the end of the string. -/
def hints (s : String) : String :=
  (if s.toList.head?.any fun c => c == ' ' || isBreak c then toString indent.length else "")
    ++ match s.toList.reverse with
      | [] => "-"
      | [c] => if isBreak c then "+" else "-"
      | c :: b :: _ => if !isBreak c then "-" else if isBreak b then "+" else ""

/-- A string line by line. The end of a line that starts the string also ends the line of the bar. -/
def literal (s : String) : String :=
  "|" ++ hints s ++ (if s.toList.head?.any isBreak then "" else "\n") ++ indented Char.toString true s.toList

def text (s : String) : String :=
  match style s with
  | .plain => s
  | .single => single s
  | .double => double s
  | .literal => literal s

/-- A key with its value on lines of their own. A literal that ends with the end of a line needs no other one. -/
def entry (key value : String) : String :=
  let ended := style value = .literal && (value.toList.getLast?.any isBreak)
  key ++ ": " ++ text value ++ (if ended then "" else "\n")

end TierCalc.YamlScalar
