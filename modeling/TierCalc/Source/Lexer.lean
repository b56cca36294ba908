import TierCalc.Source.Token
import TierCalc.Text.Bytes

/-!
# Reading tokens

A source is read from left to right. Each step skips blanks, tabs and line ends and then takes the longest token
that starts there.

* `Lexer.munch` decides from the first byte and those after it which kind of token starts there and how many more
  bytes belong to it.
* `Lexer.next` is one step. At a byte that starts no token it reports the byte and steps over it; at the end of the
  source it answers the end token, any number of times.
* `Source.tokens` is the stream of tokens up to the end or the first illegal byte.
-/

namespace TierCalc

/-- The bytes of a source and the name of the file they came from. -/
structure Source where
  bytes : Bytes
  file : String := ""
deriving DecidableEq, Repr

/-- A byte that starts no token, and where it stands. -/
structure LexError where
  byte : UInt8
  pos : Position
deriving DecidableEq, Repr

namespace LexError

def text (e : LexError) : String :=
  if e.byte == 0 then "unexpected NUL character"
  else "unexpected character " ++ Quoted.char (Char.ofNat e.byte.toNat)

def message (e : LexError) : String :=
  s!"{e.text} (line {e.pos.lineNumber}, column {e.pos.columnNumber})"

end LexError

namespace Lexer

/-- Where reading stands: the bytes still to read, their offset, and the line with its start. -/
structure Cursor where
  rest : Bytes
  offset : Nat := 0
  line : Nat := 0
  lineStart : Nat := 0
deriving DecidableEq, Repr

/-- The position of the next byte. -/
def Cursor.position (c : Cursor) (file : String) : Position :=
  { offset := c.offset, lineStart := c.lineStart, line := c.line,
    column := (c.offset : Int) - c.lineStart, file := file }

def isDigit (b : UInt8) : Bool := 48 ≤ b && b ≤ 57

/-- Whether a byte may start a name: an ASCII letter or an underscore. -/
def isLetter (b : UInt8) : Bool := (97 ≤ b && b ≤ 122) || (65 ≤ b && b ≤ 90) || b == 95

/-- Whether a byte may continue a name. -/
def isWord (b : UInt8) : Bool := isLetter b || isDigit b

/-- The cursor after blanks, tabs and line ends. A line feed starts the next line. -/
def skipBlanks : Bytes → Nat → Nat → Nat → Cursor
  | [], offset, line, lineStart => ⟨[], offset, line, lineStart⟩
  | b :: rest, offset, line, lineStart =>
      if b = 32 ∨ b = 9 ∨ b = 13 then skipBlanks rest (offset + 1) line lineStart
      else if b = 10 then skipBlanks rest (offset + 1) (line + 1) (offset + 1)
      else ⟨b :: rest, offset, line, lineStart⟩

/-- The cursor after blanks, tabs and line ends. -/
def Cursor.skip (c : Cursor) : Cursor := skipBlanks c.rest c.offset c.line c.lineStart

/-- The kind `two` with one more byte if an equals sign follows, the kind `one` otherwise. -/
def oneOrTwo (one two : Token.Kind) (rest : Bytes) : Token.Kind × Nat :=
  if rest.head? = some 61 then (two, 1) else (one, 0)

/-- The token that starts with byte `b` before `rest`: its kind and how many bytes of `rest` belong to it. -/
def munch (b : UInt8) (rest : Bytes) : Option (Token.Kind × Nat) :=
  match Char.ofNat b.toNat with
  | '+' => some (.plus, 0)
  | '-' => some (.minus, 0)
  | '*' => some (.star, 0)
  | '/' => some (.slash, 0)
  | '%' => some (.percent, 0)
  | '(' => some (.lparen, 0)
  | ')' => some (.rparen, 0)
  | ',' => some (.comma, 0)
  | ';' => some (.semicolon, 0)
  | '=' => some (oneOrTwo .assign .equal rest)
  | '<' => some (oneOrTwo .less .lessEqual rest)
  | '>' => some (oneOrTwo .greater .greaterEqual rest)
  | '!' => if rest.head? = some 61 then some (.notEqual, 1) else none
  | _ =>
      if isDigit b then some (.int, (rest.takeWhile isDigit).length)
      else if isLetter b then
        let more := rest.takeWhile isWord
        some (Token.Kind.ofWord (Bytes.ascii (b :: more)), more.length)
      else none

/-- The token of a kind that starts at `start` and is spelled by the bytes. -/
def token (kind : Token.Kind) (spelling : Bytes) (start : Position) : Token :=
  { kind := kind, literal := Bytes.ascii spelling, start := start, stop := start.advance spelling.length }

/-- What one step of reading finds. -/
abbrev Lexeme := Except LexError Token

/-- One step at a cursor that stands at no blank. -/
def lexeme (file : String) (c : Cursor) : Lexeme × Cursor :=
  let start := c.position file
  match c.rest with
  | [] => (.ok (token .eof [] start), c)
  | b :: rest =>
      match munch b rest with
      | none => (.error ⟨b, start⟩, { c with rest := rest, offset := c.offset + 1 })
      | some (kind, more) =>
          (.ok (token kind (b :: rest.take more) start),
           { c with rest := rest.drop more, offset := c.offset + 1 + more })

/-- One step of reading. -/
def next (file : String) (c : Cursor) : Lexeme × Cursor := lexeme file c.skip

def steps (file : String) : Nat → Cursor → List Lexeme
  | 0, _ => []
  | n + 1, c => (next file c).1 :: steps file n (next file c).2

theorem skipBlanks_length_le (bs : Bytes) (offset line lineStart : Nat) :
    (skipBlanks bs offset line lineStart).rest.length ≤ bs.length := by
  induction bs generalizing offset line lineStart with
  | nil => simp [skipBlanks]
  | cons b rest ih =>
      simp only [skipBlanks]
      split
      · exact Nat.le_succ_of_le (ih _ _ _)
      · split
        · exact Nat.le_succ_of_le (ih _ _ _)
        · simp

theorem lexeme_length_lt (file : String) {c : Cursor} {b : UInt8} {rest : Bytes} (h : c.rest = b :: rest) :
    (lexeme file c).2.rest.length < c.rest.length := by
  simp only [lexeme, h]
  split
  · simp
  · simp only [List.length_drop, List.length_cons]
    omega

theorem next_length_lt (file : String) {c : Cursor} {b : UInt8} {rest : Bytes} (h : c.skip.rest = b :: rest) :
    (next file c).2.rest.length < c.rest.length :=
  Nat.lt_of_lt_of_le (lexeme_length_lt file h) (skipBlanks_length_le c.rest c.offset c.line c.lineStart)

end Lexer

/-- A stream of tokens that ends with the end token or with an illegal byte. -/
inductive Tokens where
  | more (t : Token) (rest : Tokens)
  | done (t : Token)
  | fault (e : LexError)
deriving DecidableEq, Repr

namespace Tokens

/-- The tokens of the stream, the end token included, or the illegal byte that it stops at. -/
def toList : Tokens → Except LexError (List Token)
  | more t rest => rest.toList.map (t :: ·)
  | done t => .ok [t]
  | fault e => .error e

def size : Tokens → Nat
  | more _ rest => rest.size + 1
  | _ => 0

end Tokens

namespace Lexer

/-- The stream of tokens from a cursor on. -/
def stream (file : String) (c : Cursor) : Tokens :=
  match _h : c.skip.rest with
  | [] => .done (token .eof [] (c.skip.position file))
  | _ :: _ =>
      match (next file c).1 with
      | .error e => .fault e
      | .ok t => .more t (stream file (next file c).2)
termination_by c.rest.length
decreasing_by exact next_length_lt file _h

end Lexer

namespace Source

def cursor (s : Source) : Lexer.Cursor := { rest := s.bytes }

def tokens (s : Source) : Tokens := Lexer.stream s.file s.cursor

/-- The results of the first `n` steps of reading, going on after illegal bytes and after the end. -/
def steps (s : Source) (n : Nat) : List Lexer.Lexeme := Lexer.steps s.file n s.cursor

/-- The bytes without the carriage returns at their end. -/
def dropReturns (b : Bytes) : Bytes := (b.reverse.dropWhile (· == 13)).reverse

/-- The line that starts at an offset, without its line feed and without carriage returns at its end. An offset
outside the source has no line. -/
def line (s : Source) (start : Int) : Bytes :=
  if start < 0 ∨ (s.bytes.length : Int) < start then []
  else dropReturns ((s.bytes.drop start.toNat).takeWhile (· != 10))

end Source

end TierCalc
