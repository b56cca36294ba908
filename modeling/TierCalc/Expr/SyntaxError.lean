import TierCalc.Diagnostic.Code
import TierCalc.Diagnostic.Report
import TierCalc.Expr.Basic
import TierCalc.Source.Lexer

/-!
# Syntax errors

What can be wrong with a source, each with its code, its wording and the place that it points at. A `SyntaxError`
adds the file and the line of source that the place lies in.
-/

namespace TierCalc

/-- What an expected token would have completed. -/
inductive Construct where
  | group
  | conditional
  | arguments
deriving DecidableEq, Repr

/-- A construct as messages name it. -/
def Construct.text : Construct → String
  | .group => "parenthesized expression"
  | .conditional => "if expression"
  | .arguments => "call arguments"

/-- The ways in which a source can fail to be an expression. -/
inductive SyntaxFault where
  | illegal (e : LexError)
  | cancelled
  | empty (t : Token)
  | tooDeep (t : Token)
  | noOperand (t : Token)
  | outOfRange (t : Token)
  | badTarget (t : Token) (target : Expr)
  | notCallable (t : Token)
  | missing (t : Token) (within : Construct) (wanted : Token.Kind)
  | trailing (t : Token)
deriving Repr

namespace SyntaxFault

def code : SyntaxFault → ErrorCode
  | illegal _ | cancelled | empty _ | notCallable _ => .invalidSyntax
  | tooDeep _ => .nestingTooDeep
  | noOperand t => if t.kind = .eof then .invalidSyntax else .unexpectedToken
  | outOfRange _ => .invalidNumber
  | badTarget _ _ => .invalidTarget
  | missing t _ wanted => if t.kind = .eof ∧ wanted = .rparen then .unclosedDelimiter else .unexpectedToken
  | trailing _ => .unexpectedToken

def text : SyntaxFault → String
  | illegal e => e.text
  | cancelled => "context canceled"
  | empty _ => "empty expression"
  | tooDeep _ => "maximum nesting depth exceeded"
  | noOperand t => "unexpected " ++ t.describe
  | outOfRange t => "integer literal " ++ t.literal ++ " out of range"
  | badTarget _ target => "cannot assign to " ++ target.render
  | notCallable _ => "only named functions can be called"
  | missing t within wanted =>
      "unexpected " ++ t.describe ++ " while parsing " ++ within.text ++ " (expected " ++ wanted.describe ++ ")"
  | trailing t => "unexpected " ++ t.describe ++ " following expression"

/-- The places of the fault's first byte and of the byte after its last. A cancelled reading has none. -/
def span : SyntaxFault → Position × Position
  | illegal e => (e.pos, e.pos.advance 1)
  | cancelled => ({}, {})
  | empty t | tooDeep t | noOperand t | outOfRange t | badTarget t _ | notCallable t | missing t _ _
  | trailing t => (t.start, t.stop)

/-- What lies behind the fault, if something outside the grammar does. -/
def cause? : SyntaxFault → Option String
  | illegal e => some e.message
  | cancelled => some "context canceled"
  | _ => none

end SyntaxFault

/-- A fault with the file that it was found in and the line of source that it starts in. -/
structure SyntaxError where
  fault : SyntaxFault
  file : String
  line : Bytes
deriving Repr

namespace SyntaxError

/-- The error that a fault of a source gives rise to. -/
def ofFault (s : Source) (f : SyntaxFault) : SyntaxError :=
  match f with
  | .cancelled => ⟨f, "", []⟩
  | _ => ⟨f, s.file, s.line f.span.1.lineStart⟩

/-- The place of the fault's first byte. -/
def start (e : SyntaxError) : Position := e.fault.span.1

/-- The place after the fault's last byte. -/
def stop (e : SyntaxError) : Position := e.fault.span.2

def message (e : SyntaxError) : String :=
  s!"syntax error: {e.fault.text} (line {e.start.lineNumber}, column {e.start.columnNumber})"

/-- The long form of the error. Carets run from the first to the last byte of the fault. -/
def report (e : SyntaxError) : Report :=
  { code := e.fault.code.text
    kind := "syntax error"
    message := e.fault.text
    file := e.file
    line := e.start.lineNumber
    column := e.start.columnNumber
    endColumn := if e.stop.line = e.start.line ∧ e.stop.column > e.start.column then e.stop.column else 0
    excerpt := if e.line.isEmpty then [] else [⟨e.start.lineNumber, e.line, true⟩] }

end SyntaxError

end TierCalc
