import TierCalc.Diagnostic.Code
import TierCalc.Engine.Config
import TierCalc.Json.Basic
import TierCalc.Operator
import TierCalc.Source.Token
import TierCalc.Text.LowerCase

/-!
# The reference

Documentation of the language and of the engine, whole, by category or by topic. A topic is the name of a function, the
symbol or name of an operator, or an error code.
-/

namespace TierCalc.Reference

def version : String := "0.3.0"

/-- What is said about a function. -/
structure FunctionDoc where
  name : String
  signature : String
  description : String
  sample : String

/-- The functions that every expression may call. -/
def functions : List FunctionDoc := [
  ⟨"fact", "fact(n)", "n factorial; 1 when n <= 1. Wraps on overflow.", "fact(5) == 120"⟩,
  ⟨"fib", "fib(n)", "the nth Fibonacci number; n itself when n <= 1.", "fib(10) == 55"⟩,
  ⟨"pow", "pow(base, exp)", "base raised to exp; 1 when exp is 0 and 0 when exp is negative.",
    "pow(2, 10) == 1024"⟩]

/-- What an operator does. -/
def operatorText : Operator → String
  | .add => "wrapping addition"
  | .subtract => "wrapping subtraction"
  | .multiply => "wrapping multiplication"
  | .divide => "division truncating toward zero; dividing by zero is an error"
  | .modulo => "remainder with the sign of the dividend; modulo by zero is an error"
  | .equal => "1 if equal, else 0"
  | .notEqual => "1 if not equal, else 0"
  | .lessThan => "1 if less, else 0"
  | .greaterThan => "1 if greater, else 0"
  | .lessOrEqual => "1 if less or equal, else 0"
  | .greaterOrEqual => "1 if greater or equal, else 0"

def precedence (o : Operator) : Nat := ((Token.Kind.ofName? o.symbol).map Token.Kind.level).getD Token.Kind.lowest

/-- The operators, the tightest first. -/
def operators : List Operator := Operator.all.mergeSort fun x y => precedence y ≤ precedence x

/-- The forms of expressions, each with what it means. -/
def forms : List (String × String) := [
  ("42", "64-bit signed integer literal"),
  ("name", "variable read; reading an unset variable is an error"),
  ("name = expr", "assignment; evaluates to the assigned value and is right associative"),
  ("-expr", "negation, the same as 0 - expr"),
  ("(expr)", "grouping"),
  ("if(cond, then, else)", "evaluates then when cond is non-zero, else otherwise; only one branch runs"),
  ("f(a, b)", "builtin function call; calls always run interpreted")]

def functionEntry (f : FunctionDoc) : Json :=
  .obj [("name", .str f.name), ("signature", .str f.signature), ("description", .str f.description),
    ("example", .str f.sample)]

/-- The name of an operator as topics spell it. -/
def operatorName (o : Operator) : String := Text.lower o.name

def operatorEntry (o : Operator) : Json :=
  .obj [("symbol", .str o.symbol), ("name", .str (operatorName o)), ("precedence", .int (precedence o)),
    ("description", .str (operatorText o))]

def formEntry (f : String × String) : Json := .obj [("pattern", .str f.1), ("description", .str f.2)]

def errorEntry (c : ErrorCode) : Json :=
  .obj [("code", .str c.text), ("category", .str (ErrorCode.category c.text)), ("description", .str c.description)]

def engineEntry : Json :=
  let defaults : Config := {}
  .obj [("default_hot_threshold", .int defaults.hotThreshold.toNat), ("default_max_entries", .int defaults.maxEntries),
    ("default_lock_timeout", .str defaults.lockTimeout.text),
    ("compiled", .str "integer literals, variables, arithmetic, comparisons, assignments and if"),
    ("interpreted", .str "every expression containing a function call")]

/-- The categories with their contents. -/
def categories : List (String × Json) := [
  ("functions", .arr (functions.map functionEntry)),
  ("operators", .arr (operators.map operatorEntry)),
  ("syntax", .arr (forms.map formEntry)),
  ("errors", .arr (ErrorCode.all.map errorEntry)),
  ("engine", engineEntry)]

def whole : Json := .obj (("version", .str version) :: categories)

/-- Whether a text names a category, in any case of letters. -/
def isCategory (s : String) : Bool := (categories.lookup (Text.lower s)).isSome

def category (s : String) : Json :=
  let name := Text.lower s
  match categories.lookup name with
  | some j => .obj [(name, j)]
  | none =>
      .obj
        [("categories", .arr (categories.map fun c => .str c.1)),
         ("error", .str ("unknown category " ++ Quoted.text s))]

def topic (s : String) : Json :=
  match functions.find? (·.name == s) with
  | some f => functionEntry f
  | none =>
      match operators.find? fun o => o.symbol == s || operatorName o == Text.lower s with
      | some o => operatorEntry o
      | none =>
          match ErrorCode.ofText? (String.ofList (s.toList.map Char.toUpper)) with
          | some c => errorEntry c
          | none => .obj [("error", .str ("unknown topic " ++ Quoted.text s))]

/-- What is asked for: a topic goes before a category; an empty text asks for nothing. -/
def lookup (categoryName topicName : String) : Json :=
  if topicName != "" then topic topicName
  else if categoryName != "" then category categoryName
  else whole

end TierCalc.Reference
