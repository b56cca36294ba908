import TierCalc.Diagnostic.Code
import TierCalc.Diagnostic.Report
import TierCalc.Diagnostic.Suggestion
import TierCalc.Source.Position
import TierCalc.Text.Duration
import TierCalc.Text.Quoted

/-!
# Evaluation errors

Why an expression has no value, where that shows in its source, and what might have been meant.
-/

namespace TierCalc

/-- A place in a source as a reader counts it, with the line of source if it is known. -/
structure Location where
  file : String := ""
  line : Int := 0
  column : Int := 0
  source : String := ""
deriving DecidableEq, Repr, Inhabited

namespace Location

def ofPosition (p : Position) : Location := { file := p.file, line := p.lineNumber, column := p.columnNumber }

/-- The location as messages show it. -/
def text (l : Location) : String :=
  let place := toString l.line ++ ":" ++ toString l.column
  if l.file == "" then place else l.file ++ ":" ++ place

/-- Whether the location is unset. -/
def isUnset (l : Location) : Bool := l.line == 0 && l.column == 0

end Location

/-- The reasons for which an expression has no value. -/
inductive EvalCause where
  | undefinedVariable (name : String)
  | unknownFunction (name : String)
  | arity (name : String) (want got : Int)
  | zeroDivisor
  | zeroModulus
  | busy (wait : Duration)
deriving DecidableEq, Repr

namespace EvalCause

def code : EvalCause → ErrorCode
  | undefinedVariable _ => .undefinedVariable
  | unknownFunction _ => .undefinedFunction
  | arity _ _ _ => .argumentCount
  | zeroDivisor | zeroModulus => .divisionByZero
  | busy _ => .engineBusy

def text : EvalCause → String
  | undefinedVariable name => "undefined variable " ++ Quoted.text name
  | unknownFunction name => "unknown function " ++ Quoted.text name
  | arity name want got =>
      name ++ "() takes " ++ toString want ++ " argument(s) (" ++ toString got ++ " given)"
  | zeroDivisor => "division by zero"
  | zeroModulus => "modulo by zero"
  | busy wait => "engine busy: lock not acquired within " ++ wait.text

end EvalCause

/-- A cause with its place and a hint. -/
structure EvalError where
  cause : EvalCause
  location : Location := {}
  hint : String := ""
deriving DecidableEq, Repr

namespace EvalError

/-- The error for a variable that is not bound among the known names. -/
def undefinedVariable (name : String) (location : Location) (known : List String) : EvalError :=
  ⟨.undefinedVariable name, location, Suggestion.question (Suggestion.similar name known)⟩

/-- The error for a function that is not among the known ones. -/
def unknownFunction (name : String) (location : Location) (known : List String) : EvalError :=
  ⟨.unknownFunction name, location, Suggestion.question (Suggestion.similar name known)⟩

/-- The error for a division by zero; the remainder's symbol has a wording of its own. -/
def divisionByZero (symbol : String) (location : Location) : EvalError :=
  { cause := if symbol == "%" then .zeroModulus else .zeroDivisor, location := location }

def message (e : EvalError) : String :=
  if e.location.isUnset then e.cause.text else e.cause.text ++ " (" ++ e.location.text ++ ")"

def report (e : EvalError) : Report :=
  { code := e.cause.code.text
    kind := "error"
    message := e.cause.text
    file := e.location.file
    line := e.location.line
    column := e.location.column
    excerpt :=
      if e.location.source == "" then []
      else [⟨e.location.line, Bytes.ofString e.location.source, true⟩]
    hint := e.hint }

end EvalError

end TierCalc
