/-!
# Comma-separated values

The first record of a text in which commas divide fields and line feeds divide records. A field between double quotes
may hold both, and a quote that is written twice. Lines without anything before the first record are passed over. A
carriage return before a line feed, or at the end of the text, belongs to the end of the line.

Faults are told by line and column, both counted from one and columns in bytes.
-/

namespace TierCalc.Csv

/-- Why a text has no first record. -/
inductive Fault where
  | bareQuote
  | looseQuote
deriving DecidableEq, Repr

def Fault.text : Fault → String
  | bareQuote => "bare \" in non-quoted-field"
  | looseQuote => "extraneous or missing \" in quoted-field"

/-- What can be wrong with a text. -/
inductive Problem where
  | empty
  | malformed (start line column : Nat) (fault : Fault)
deriving DecidableEq, Repr

/-- The wording of a problem. The line on which the record starts is told if it is another one. -/
def Problem.message : Problem → String
  | empty => "EOF"
  | malformed start line column fault =>
      (if start = line then "" else "record on line " ++ toString start ++ "; ")
        ++ "parse error on line " ++ toString line ++ ", column " ++ toString column ++ ": " ++ fault.text

/-- The text with line feeds for the ends of its lines. -/
def normal : List Char → List Char
  | [] => []
  | ['\r'] => []
  | '\r' :: '\n' :: rest => '\n' :: normal rest
  | c :: rest => c :: normal rest

/-- The number of the first line with anything on it, and the text from there on. -/
def skipBlank (line : Nat) : List Char → Nat × List Char
  | '\n' :: rest => skipBlank (line + 1) rest
  | cs => (line, cs)

/-- Where in a field a character stands. -/
inductive Mode where
  | start
  | bare
  | quoted
  | afterQuote
deriving DecidableEq, Repr

/-- A place in the text, and the characters of the field so far, last first. -/
structure Place where
  line : Nat
  column : Nat := 1
  mode : Mode := .start
  field : List Char := []

namespace Place

/-- The place after a character that belongs to the field or does not. -/
def next (p : Place) (c : Char) (mode : Mode) (keep : Bool) : Place :=
  { p with column := p.column + c.utf8Size, mode := mode, field := if keep then c :: p.field else p.field }

/-- The start of the next field, after a comma. -/
def fresh (p : Place) : Place := { p with column := p.column + 1, mode := .start, field := [] }

/-- The text of the field so far. -/
def text (p : Place) : String := String.ofList p.field.reverse

end Place

/-- The fields of a record that starts on a line, from a place in it on. -/
def fields (first : Nat) (p : Place) : List Char → Except Problem (List String)
  | [] =>
      match p.mode with
      | .quoted => .error (.malformed first p.line p.column .looseQuote)
      | _ => .ok [p.text]
  | c :: rest =>
      match p.mode with
      | .quoted =>
          if c = '"' then fields first (p.next c .afterQuote false) rest
          else if c = '\n' ∧ !rest.isEmpty then
            fields first { p with line := p.line + 1, column := 1, field := c :: p.field } rest
          else fields first (p.next c .quoted true) rest
      | .afterQuote =>
          if c = '"' then fields first (p.next c .quoted true) rest
          else if c = ',' then (fields first p.fresh rest).map (p.text :: ·)
          else if c = '\n' then .ok [p.text]
          else .error (.malformed first p.line (p.column - 1) .looseQuote)
      | mode =>
          if c = ',' then (fields first p.fresh rest).map (p.text :: ·)
          else if c = '\n' then .ok [p.text]
          else if c = '"' then
            if mode = .start then fields first (p.next c .quoted false) rest
            else .error (.malformed first p.line p.column .bareQuote)
          else fields first (p.next c .bare true) rest

/-- The first record of a text. The empty text has one without fields. -/
def record (s : String) : Except Problem (List String) :=
  if s.isEmpty then .ok []
  else
    match skipBlank 1 (normal s.toList) with
    | (_, []) => .error .empty
    | (line, cs) => fields line { line := line } cs

end TierCalc.Csv
