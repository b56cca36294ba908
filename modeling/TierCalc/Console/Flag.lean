import TierCalc.Text.Csv
import TierCalc.Text.Duration
import TierCalc.Text.IntegerLiteral
import TierCalc.Text.Quoted

/-!
# Flags

The arguments of a command are flags and words in any order. A flag has a long name after two dashes, and may have a
letter after one; its value follows an equals sign or is the next argument. Flags for truth values need none. After
two dashes alone all arguments are words, and one dash alone is a word too. Letters are bytes, and a run of letters
that goes on with `test.` ends there.
-/

namespace TierCalc

/-- What a flag takes. Several texts are a record of comma-separated values. -/
inductive FlagKind where
  | text
  | texts
  | bool
  | int
  | uint
  | duration
deriving DecidableEq, Repr

structure Flag where
  name : String
  kind : FlagKind
  usage : String
  letter? : Option Char := none
  initial : String := ""
deriving DecidableEq, Repr

/-- What can be wrong with arguments. -/
inductive FlagError where
  | badForm (arg : String)
  | unknown (name : String)
  | unknownLetter (c : Char) (letters : String)
  | needsValue (name : String)
  | needsValueLetter (c : Char) (letters : String)
  | invalid (flag : Flag) (value reason : String)
deriving DecidableEq, Repr

def Flag.title (f : Flag) : String :=
  match f.letter? with
  | some c => "-" ++ c.toString ++ ", --" ++ f.name
  | none => "--" ++ f.name

def FlagError.message : FlagError → String
  | badForm arg => "bad flag syntax: " ++ arg
  | unknown name => "unknown flag: --" ++ name
  | unknownLetter c letters => "unknown shorthand flag: " ++ Quoted.char c ++ " in -" ++ letters
  | needsValue name => "flag needs an argument: --" ++ name
  | needsValueLetter c letters => "flag needs an argument: " ++ Quoted.char c ++ " in -" ++ letters
  | invalid f value reason =>
      "invalid argument " ++ Quoted.text value ++ " for " ++ Quoted.text f.title ++ " flag: " ++ reason

/-- The truth value of a text. -/
def boolValue? (s : String) : Option Bool :=
  if ["1", "t", "T", "true", "TRUE", "True"].contains s then some true
  else if ["0", "f", "F", "false", "FALSE", "False"].contains s then some false
  else none

namespace Flag

/-- The reason that is given for a text that is no value. -/
def reason (reader value why : String) : String := reader ++ ": parsing " ++ Quoted.text value ++ ": " ++ why

/-- The reason for which a text is no value of the flag, if there is one. -/
def refusal? (f : Flag) (value : String) : Option String :=
  match f.kind with
  | .text => none
  | .texts =>
      match Csv.record value with
      | .ok _ => none
      | .error p => some p.message
  | .bool => if (boolValue? value).isSome then none else some (reason "strconv.ParseBool" value "invalid syntax")
  | .int =>
      match IntegerLiteral.signed value with
      | .ok _ => none
      | .error p => some (reason "strconv.ParseInt" value p.message)
  | .uint =>
      match IntegerLiteral.unsigned value with
      | .ok _ => none
      | .error p => some (reason "strconv.ParseUint" value p.message)
  | .duration =>
      match Duration.parse value with
      | .ok _ => none
      | .error e => some (e.message value)

end Flag

/-- The flags that were given with their values, in order, and the words. -/
structure Arguments where
  given : List (String × String) := []
  words : List String := []
deriving DecidableEq, Repr

namespace Arguments

def valuesOf (a : Arguments) (name : String) : List String := (a.given.filter (·.1 == name)).map (·.2)

/-- The last value given for a flag. -/
def value? (a : Arguments) (name : String) : Option String := (a.valuesOf name).getLast?

/-- Whether a flag was given at all. -/
def has (a : Arguments) (name : String) : Bool := (a.value? name).isSome

/-- The truth value of a flag. -/
def isTrue (a : Arguments) (name : String) : Bool := ((a.value? name).bind boolValue?).getD false

/-- The arguments with one more flag in front. -/
def withFlag (f : Flag) (value : String) (rest : Except FlagError Arguments) : Except FlagError Arguments :=
  match f.refusal? value with
  | some why => .error (.invalid f value why)
  | none => rest.map fun a => { a with given := (f.name, value) :: a.given }

/-- The name and the value of an argument with an equals sign. -/
def splitValue (cs : List Char) : String × Option String :=
  (String.ofList (cs.takeWhile (· != '=')),
    match cs.dropWhile (· != '=') with
    | _ :: value => some (String.ofList value)
    | [] => none)

/-- The first byte of a character as a character. -/
def firstByte (c : Char) : Char := Char.ofNat ((Bytes.ofString c.toString).headD 0).toNat

/-- The flags that a run of letters gives, and whether the last of them takes the next argument as its value. -/
def letters (flags : List Flag) (next? : Option String) : List Char → Except FlagError (List (Flag × String) × Bool)
  | [] => .ok ([], false)
  | c :: rest =>
      if "test.".toList.isPrefixOf (c :: rest) then .ok ([], false)
      else
        match flags.find? (·.letter? == some c) with
        | none => .error (.unknownLetter (firstByte c) (String.ofList (c :: rest)))
        | some f =>
            match rest with
            | '=' :: v :: vs => .ok ([(f, String.ofList (v :: vs))], false)
            | _ =>
                if f.kind = .bool then
                  match letters flags next? rest with
                  | .ok (more, taken) => .ok ((f, "true") :: more, taken)
                  | .error e => .error e
                else
                  match rest, next? with
                  | _ :: _, _ => .ok ([(f, String.ofList rest)], false)
                  | [], some v => .ok ([(f, v)], true)
                  | [], none => .error (.needsValueLetter c c.toString)

/-- Reads arguments. -/
def parse (flags : List Flag) : List String → Except FlagError Arguments
  | [] => .ok {}
  | arg :: rest =>
      match arg.toList with
      | ['-', '-'] => .ok { words := rest }
      | '-' :: '-' :: cs =>
          let (name, value?) := splitValue cs
          if name == "" || cs.head? == some '-' then .error (.badForm arg)
          else
            match flags.find? (·.name == name) with
            | none => .error (.unknown name)
            | some f =>
                match value? with
                | some v => withFlag f v (parse flags rest)
                | none =>
                    if f.kind = .bool then withFlag f "true" (parse flags rest)
                    else
                      match rest with
                      | [] => .error (.needsValue name)
                      | v :: more => withFlag f v (parse flags more)
      | '-' :: c :: cs =>
          match letters flags rest.head? (c :: cs) with
          | .error e => .error e
          | .ok (given, taken) =>
              let others : Except FlagError Arguments :=
                match rest with
                | v :: more => if taken then parse flags more else parse flags (v :: more)
                | [] => .ok {}
              given.foldr (fun p a => withFlag p.1 p.2 a) others
      | _ => (parse flags rest).map fun a => { a with words := arg :: a.words }

/-- The first word among arguments and the arguments without it. An argument that may be the value of the flag before
it is passed over. -/
def firstWord? (flags : List Flag) : List String → Option (String × List String)
  | [] => none
  | arg :: rest =>
      let keep : Option (String × List String) → Option (String × List String) :=
        Option.map fun p => (p.1, arg :: p.2)
      match arg.toList with
      | ['-', '-'] => none
      | '-' :: cs =>
          let named : Option Flag :=
            match cs with
            | '-' :: name => flags.find? (·.name == String.ofList name)
            | [c] => flags.find? (·.letter? == some c)
            | _ => none
          let takesNext : Bool :=
            !cs.contains '=' && (cs.head? == some '-' || arg.utf8ByteSize == 2) && !(named.any fun f => f.kind == .bool)
          if takesNext then
            match rest with
            | v :: w :: more => (firstWord? flags (w :: more)).map fun p => (p.1, arg :: v :: p.2)
            | _ => none
          else keep (firstWord? flags rest)
      | [] => keep (firstWord? flags rest)
      | _ => some (arg, rest)

end Arguments

end TierCalc
