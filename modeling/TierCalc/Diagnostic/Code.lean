import TierCalc.Text.Bytes

/-!
# Error codes

Every fault that a user can cause has a code: a letter and four digits, of which the first tells the stage that found
it.
-/

namespace TierCalc

/-- The codes in use. -/
inductive ErrorCode where
  | unexpectedToken
  | invalidSyntax
  | invalidTarget
  | unclosedDelimiter
  | invalidNumber
  | nestingTooDeep
  | undefinedVariable
  | undefinedFunction
  | divisionByZero
  | argumentCount
  | engineBusy
deriving DecidableEq, Repr

namespace ErrorCode

/-- All codes, in increasing order of their texts. -/
def all : List ErrorCode :=
  [unexpectedToken, invalidSyntax, invalidTarget, unclosedDelimiter, invalidNumber, nestingTooDeep,
   undefinedVariable, undefinedFunction, divisionByZero, argumentCount, engineBusy]

def text : ErrorCode → String
  | unexpectedToken => "E1001"
  | invalidSyntax => "E1003"
  | invalidTarget => "E1005"
  | unclosedDelimiter => "E1007"
  | invalidNumber => "E1008"
  | nestingTooDeep => "E1009"
  | undefinedVariable => "E2001"
  | undefinedFunction => "E2002"
  | divisionByZero => "E3002"
  | argumentCount => "E3010"
  | engineBusy => "E4001"

def description : ErrorCode → String
  | unexpectedToken => "unexpected token"
  | invalidSyntax => "invalid syntax"
  | invalidTarget => "invalid assignment target"
  | unclosedDelimiter => "unclosed delimiter"
  | invalidNumber => "invalid number literal"
  | nestingTooDeep => "maximum nesting depth exceeded"
  | undefinedVariable => "undefined variable"
  | undefinedFunction => "undefined function"
  | divisionByZero => "division by zero"
  | argumentCount => "wrong number of arguments"
  | engineBusy => "engine busy"

def ofText? (s : String) : Option ErrorCode := all.find? (·.text == s)

/-- What the code with a text means, for any text. -/
def describe (s : String) : String := ((ofText? s).map description).getD "unknown error"

/-- The stage that a text names by its second byte. -/
def category (s : String) : String :=
  match Bytes.ofString s with
  | _ :: 49 :: _ => "parse"
  | _ :: 50 :: _ => "name"
  | _ :: 51 :: _ => "runtime"
  | _ :: 52 :: _ => "engine"
  | _ => "unknown"

end ErrorCode

end TierCalc
