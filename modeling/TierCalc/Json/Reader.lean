import TierCalc.Json.Basic

/-!
# Reading JSON

`Json.read` takes the first value off a text and leaves what follows it. A text that holds no whole value is refused,
as are values nested deeper than ten thousand levels.

* Half of a surrogate pair, written as an escape, is read as the replacement character.
* Numbers with a fraction or an exponent become floating-point numbers, others stay exact.
-/

namespace TierCalc.Json

/-- The reasons for which a text holds no value. -/
inductive ReadError where
  | endOfInput
  | unexpected (c : Char)
  | tooDeep
deriving DecidableEq, Repr

def ReadError.message : ReadError → String
  | endOfInput => "unexpected end of JSON input"
  | unexpected c => "unexpected character " ++ quote c.toString
  | tooDeep => "exceeded max depth"

/-- The deepest nesting. -/
def maxDepth : Nat := 10000

/-- The text without its leading blanks. -/
def skip (cs : List Char) : List Char := cs.dropWhile fun c => c == ' ' || c == '\t' || c == '\n' || c == '\r'

/-- The error for a text that does not go on as it should. -/
def failure : List Char → ReadError
  | [] => .endOfInput
  | c :: _ => .unexpected c

/-- Takes a word off a text. -/
def keyword : List Char → List Char → Except ReadError (List Char)
  | [], cs => .ok cs
  | w :: ws, c :: cs => if w = c then keyword ws cs else .error (.unexpected c)
  | _ :: _, [] => .error .endOfInput

/-- The value of four hexadecimal digits at the head of a text. -/
def unit? : List Char → Except ReadError (Nat × List Char)
  | a :: b :: c :: d :: rest =>
      match Numeral.digitValue? 16 a, Numeral.digitValue? 16 b, Numeral.digitValue? 16 c, Numeral.digitValue? 16 d with
      | some w, some x, some y, some z => .ok (((w * 16 + x) * 16 + y) * 16 + z, rest)
      | _, _, _, _ => .error (.unexpected a)
  | _ => .error .endOfInput

/-- The character that a code unit starts, with the text after it. The second half of a pair must follow its first. -/
def codeUnit (n : Nat) (rest : List Char) : Char × List Char :=
  let lone := ('�', rest)
  if 0xD800 ≤ n && n < 0xDC00 then
    match rest with
    | '\\' :: 'u' :: more =>
        match unit? more with
        | .ok (low, rest) =>
            if 0xDC00 ≤ low && low < 0xE000 then (Char.ofNat (0x10000 + (n - 0xD800) * 0x400 + (low - 0xDC00)), rest)
            else lone
        | .error _ => lone
    | _ => lone
  else if 0xDC00 ≤ n && n < 0xE000 then lone
  else (Char.ofNat n, rest)

/-- The character of a one-letter escape. -/
def escaped? : Char → Option Char
  | '"' => some '"'
  | '\\' => some '\\'
  | '/' => some '/'
  | 'b' => some '\x08'
  | 'f' => some '\x0c'
  | 'n' => some '\n'
  | 'r' => some '\r'
  | 't' => some '\t'
  | _ => none

/-- The rest of a string after its opening quote. Every step takes a character off, so as many steps as characters are
enough. -/
def string : Nat → List Char → List Char → Except ReadError (String × List Char)
  | 0, _, _ => .error .endOfInput
  | _ + 1, _, [] => .error .endOfInput
  | fuel + 1, done, c :: rest =>
      if c = '"' then .ok (String.ofList done.reverse, rest)
      else if c.toNat < 0x20 then .error (.unexpected c)
      else if c = '\\' then
        match rest with
        | [] => .error .endOfInput
        | 'u' :: more =>
            match unit? more with
            | .error e => .error e
            | .ok (n, more) => string fuel ((codeUnit n more).1 :: done) (codeUnit n more).2
        | e :: more =>
            match escaped? e with
            | some c => string fuel (c :: done) more
            | none => .error (.unexpected e)
      else string fuel (c :: done) rest

/-- The digits at the head of a text, of which there is at least one. -/
def digits (cs : List Char) : Except ReadError (List Char × List Char) :=
  let ds := cs.takeWhile Char.isDigit
  let rest := cs.dropWhile Char.isDigit
  if ds.isEmpty then .error (failure rest) else .ok (ds, rest)

/-- The digits before the point: a zero stands alone. -/
def wholePart : List Char → Except ReadError (List Char × List Char)
  | '0' :: rest => .ok (['0'], rest)
  | cs => digits cs

/-- The digits after the point, if there is one. -/
def fractionPart : List Char → Except ReadError (List Char × List Char)
  | '.' :: rest => digits rest
  | cs => .ok ([], cs)

/-- The exponent, if there is one. -/
def exponentPart : List Char → Except ReadError (Option Int × List Char)
  | c :: rest =>
      if c = 'e' || c = 'E' then
        let (negative, rest) :=
          match rest with
          | '-' :: more => (true, more)
          | '+' :: more => (false, more)
          | _ => (false, rest)
        match digits rest with
        | .error e => .error e
        | .ok (ds, rest) =>
            let n : Int := (Numeral.ofDigits? 10 0 ds).getD 0
            .ok (some (if negative then -n else n), rest)
      else .ok (none, c :: rest)
  | [] => .ok (none, [])

/-- A number without its sign. -/
def magnitude (negative : Bool) (cs : List Char) : Except ReadError (Json × List Char) := do
  let (whole, cs) ← wholePart cs
  let (part, cs) ← fractionPart cs
  let (exponent?, cs) ← exponentPart cs
  let n := (Numeral.ofDigits? 10 0 (whole ++ part)).getD 0
  if part.isEmpty && exponent?.isNone then
    return (.int (if negative then -(n : Int) else n), cs)
  else
    let e := exponent?.getD 0 - part.length
    let x := Float.ofScientific n (e < 0) e.natAbs
    return (.float (if negative then -x else x), cs)

mutual

/-- Reads a value at a depth of nesting. -/
def value : Nat → Nat → List Char → Except ReadError (Json × List Char)
  | 0, _, _ => .error .endOfInput
  | fuel + 1, depth, cs =>
      match skip cs with
      | [] => .error .endOfInput
      | '\x7b' :: rest =>
          if depth = 0 then .error .tooDeep
          else
            match skip rest with
            | '\x7d' :: rest => .ok (.obj [], rest)
            | cs => members fuel (depth - 1) [] cs
      | '[' :: rest =>
          if depth = 0 then .error .tooDeep
          else
            match skip rest with
            | ']' :: rest => .ok (.arr [], rest)
            | cs => items fuel (depth - 1) [] cs
      | '"' :: rest => (string (rest.length + 1) [] rest).map fun (s, rest) => (.str s, rest)
      | 't' :: rest => (keyword ['r', 'u', 'e'] rest).map fun rest => (.bool true, rest)
      | 'f' :: rest => (keyword ['a', 'l', 's', 'e'] rest).map fun rest => (.bool false, rest)
      | 'n' :: rest => (keyword ['u', 'l', 'l'] rest).map fun rest => (.null, rest)
      | '-' :: rest => magnitude true rest
      | cs => magnitude false cs

/-- Reads the items of an array up to its end. -/
def items : Nat → Nat → List Json → List Char → Except ReadError (Json × List Char)
  | 0, _, _, _ => .error .endOfInput
  | fuel + 1, depth, done, cs =>
      match value fuel depth cs with
      | .error e => .error e
      | .ok (v, cs) =>
          match skip cs with
          | ',' :: rest => items fuel depth (v :: done) rest
          | ']' :: rest => .ok (.arr (v :: done).reverse, rest)
          | cs => .error (failure cs)

/-- Reads the members of an object up to its end. -/
def members : Nat → Nat → List (String × Json) → List Char → Except ReadError (Json × List Char)
  | 0, _, _, _ => .error .endOfInput
  | fuel + 1, depth, done, cs =>
      match skip cs with
      | '"' :: rest =>
          match string (rest.length + 1) [] rest with
          | .error e => .error e
          | .ok (k, cs) =>
              match skip cs with
              | ':' :: rest =>
                  match value fuel depth rest with
                  | .error e => .error e
                  | .ok (v, cs) =>
                      match skip cs with
                      | ',' :: rest => members fuel depth ((k, v) :: done) rest
                      | '\x7d' :: rest => .ok (.obj ((k, v) :: done).reverse, rest)
                      | cs => .error (failure cs)
              | cs => .error (failure cs)
      | cs => .error (failure cs)

end

def read (cs : List Char) : Except ReadError (Json × List Char) := value (2 * cs.length + 2) maxDepth cs

end TierCalc.Json
