/-!
# Binary operators

The operators of the language with their numbers, names and symbols, and what each computes on 64-bit integers.

* Sums, differences and products wrap around.
* Quotients and remainders go toward zero; `Operator.apply` has no value for a zero divisor. The least integer
  divided by minus one wraps around to itself.
* Comparisons give one or zero.

Trees carry operators by number, and numbers outside the table belong to no operator.
-/

namespace TierCalc

/-- The binary operators. -/
inductive Operator where
  | add
  | subtract
  | multiply
  | divide
  | modulo
  | equal
  | notEqual
  | lessThan
  | greaterThan
  | lessOrEqual
  | greaterOrEqual
deriving DecidableEq, Repr, Inhabited

namespace Operator

/-- The operators in the order of their numbers. -/
def all : List Operator :=
  [add, subtract, multiply, divide, modulo, equal, notEqual, lessThan, greaterThan, lessOrEqual, greaterOrEqual]

def number : Operator → UInt8
  | add => 1
  | subtract => 2
  | multiply => 3
  | divide => 4
  | modulo => 5
  | equal => 6
  | notEqual => 7
  | lessThan => 8
  | greaterThan => 9
  | lessOrEqual => 10
  | greaterOrEqual => 11

def ofNumber? (n : UInt8) : Option Operator := all.find? (·.number == n)

/-- The symbol that stands for an operator in source text. -/
def symbol : Operator → String
  | add => "+"
  | subtract => "-"
  | multiply => "*"
  | divide => "/"
  | modulo => "%"
  | equal => "=="
  | notEqual => "!="
  | lessThan => "<"
  | greaterThan => ">"
  | lessOrEqual => "<="
  | greaterOrEqual => ">="

def name : Operator → String
  | add => "ADD"
  | subtract => "SUBTRACT"
  | multiply => "MULTIPLY"
  | divide => "DIVIDE"
  | modulo => "MODULO"
  | equal => "EQUAL"
  | notEqual => "NOT_EQUAL"
  | lessThan => "LESS_THAN"
  | greaterThan => "GREATER_THAN"
  | lessOrEqual => "LESS_THAN_OR_EQUAL"
  | greaterOrEqual => "GREATER_THAN_OR_EQUAL"

def ofSymbol? (s : String) : Option Operator := all.find? (·.symbol == s)

def isComparison : Operator → Bool
  | equal | notEqual | lessThan | greaterThan | lessOrEqual | greaterOrEqual => true
  | _ => false

/-- Whether the operator has no value for a zero right operand. -/
def isDivision : Operator → Bool
  | divide | modulo => true
  | _ => false

/-- One for true and zero for false. -/
def truth (b : Bool) : Int64 := if b then 1 else 0

/-- The value of an operator on two operands; none if it divides by zero. -/
def apply : Operator → Int64 → Int64 → Option Int64
  | add, x, y => some (x + y)
  | subtract, x, y => some (x - y)
  | multiply, x, y => some (x * y)
  | divide, x, y => if y = 0 then none else some (x / y)
  | modulo, x, y => if y = 0 then none else some (x % y)
  | equal, x, y => some (truth (x == y))
  | notEqual, x, y => some (truth (x != y))
  | lessThan, x, y => some (truth (x < y))
  | greaterThan, x, y => some (truth (x > y))
  | lessOrEqual, x, y => some (truth (x ≤ y))
  | greaterOrEqual, x, y => some (truth (x ≥ y))

/-- The symbol of the operator with a number, or nothing if there is none. -/
def symbolOf (n : UInt8) : String := ((ofNumber? n).map symbol).getD ""

end Operator

end TierCalc
