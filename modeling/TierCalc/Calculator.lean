import TierCalc.Engine.Execute

/-!
# Calculators

One-shot evaluation: a source text is read and executed on an engine of its own. Reading comes first, so a malformed
text is told before an unusable configuration.
-/

namespace TierCalc

/-- How texts are read and executed. A nesting bound that is not positive stands for the usual one. -/
structure Calculator where
  config : Config := {}
  vars : Bindings := {}
  functions : Builtins Engine := .withDefaults []
  file : String := ""
  maxDepth : Int := 0

/-- The reasons for which a calculator gives no value. -/
inductive CalculatorError where
  | config (e : ConfigError)
  | engine (e : EngineError)

def CalculatorError.message : CalculatorError → String
  | config e => Engine.refusalText e
  | engine e => e.message

namespace Calculator

def parse (c : Calculator) (text : Bytes) (cancelled : Bool := false) : Except SyntaxError Expr :=
  let defaults : ParseOptions := {}
  Expr.parse ⟨text, c.file⟩
    { maxDepth := if 0 < c.maxDepth then c.maxDepth else defaults.maxDepth, cancelled := cancelled }

def eval (c : Calculator) (text : Bytes) (cancelled : Bool := false) : Except CalculatorError Int64 :=
  match c.parse text cancelled with
  | .error e => .error (.engine (.malformed e))
  | .ok e =>
      match Engine.new c.config c.vars with
      | .error r => .error (.config r)
      | .ok s =>
          match (s.executeExpr c.functions e cancelled).1 with
          | .ok x => .ok x.value
          | .error r => .error (.engine r)

/-- The names of the functions that expressions may call, in increasing order. -/
def functionNames (c : Calculator) : List String := c.functions.names

end Calculator

end TierCalc
