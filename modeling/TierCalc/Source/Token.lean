import TierCalc.Source.Position
import TierCalc.Text.Quoted

/-!
# Tokens

The kinds of token, their names, how tightly each binds as an infix operator, and how messages describe them.
-/

namespace TierCalc

/-- The kinds of token. -/
inductive Token.Kind where
  | assign
  | star
  | comma
  | eof
  | equal
  | greater
  | greaterEqual
  | ident
  | cond
  | int
  | lparen
  | less
  | lessEqual
  | minus
  | percent
  | notEqual
  | plus
  | rparen
  | semicolon
  | slash
deriving DecidableEq, Repr, Inhabited

namespace Token.Kind

/-- The name of a kind: the symbol itself, or a word for the kinds with many spellings. -/
def name : Kind → String
  | assign => "="
  | star => "*"
  | comma => ","
  | eof => "EOF"
  | equal => "=="
  | greater => ">"
  | greaterEqual => ">="
  | ident => "IDENT"
  | cond => "IF"
  | int => "INT"
  | lparen => "("
  | less => "<"
  | lessEqual => "<="
  | minus => "-"
  | percent => "%"
  | notEqual => "!="
  | plus => "+"
  | rparen => ")"
  | semicolon => ";"
  | slash => "/"

def all : List Kind :=
  [assign, star, comma, eof, equal, greater, greaterEqual, ident, cond, int, lparen, less, lessEqual, minus,
   percent, notEqual, plus, rparen, semicolon, slash]

/-- The kind of a word: `if` is reserved and every other word is a name. -/
def ofWord (s : String) : Kind := if s == "if" then cond else ident

/-- How tightly a token binds what stands before it: assignment least, then equality, order, sums, products, and
calls most. Tokens that continue no expression have the lowest level. -/
def level : Kind → Nat
  | assign => 2
  | equal | notEqual => 3
  | less | lessEqual | greater | greaterEqual => 4
  | plus | minus => 5
  | slash | star | percent => 6
  | lparen => 8
  | _ => 1

def ofName? (s : String) : Option Kind := all.find? (·.name == s)

/-- The level at which a whole expression is read. -/
def lowest : Nat := 1

/-- The level at which the operand of a leading minus is read. -/
def unary : Nat := 7

/-- A kind as messages name it. -/
def describe : Kind → String
  | eof => "end of input"
  | ident => "identifier"
  | int => "integer"
  | cond => "if"
  | k => Quoted.text k.name

end Token.Kind

/-- A token with its spelling and the positions of its first byte and of the byte after its last. -/
structure Token where
  kind : Token.Kind
  literal : String
  start : Position
  stop : Position
deriving DecidableEq, Repr, Inhabited

/-- A token as messages name it. -/
def Token.describe (t : Token) : String :=
  match t.kind with
  | .eof => "end of input"
  | .ident => "identifier " ++ Quoted.text t.literal
  | .int => "integer " ++ t.literal
  | _ => Quoted.text t.literal

end TierCalc
