/-!
# Builtin functions

Functions that expressions call by name. A builtin may look at and change a world beside the variables (of type `τ`);
those that every evaluation knows do not.

* `fibonacci`, `factorial` and `power` compute their functions modulo `2 ^ 64`. At most one, the first is its
  argument and the second is one; a negative exponent gives zero.
* The rounds of `fibonacci` and `factorial` are counted down in `Nat`. A counter of 64 bits that runs up to the argument
  counts the same rounds for every argument but `2 ^ 63 - 1`, which it cannot exceed: with such a counter the loop would
  not end, while the functions here have a value.
* `Builtins` is a table in increasing order of names, each name once.
-/

namespace TierCalc

/-- A function with a name, a number of arguments, and what it computes and does. -/
structure Builtin (τ : Type) where
  name : String
  arity : Int
  run : List Int64 → τ → Int64 × τ

namespace Builtin

/-- The last two of `n` more Fibonacci numbers after `a` and `b`. -/
def fibonacciFrom : Nat → Int64 → Int64 → Int64 × Int64
  | 0, a, b => (a, b)
  | n + 1, a, b => fibonacciFrom n b (a + b)

/-- The Fibonacci number of an index, which at most one is the number itself. -/
def fibonacci (n : Int64) : Int64 :=
  if n ≤ 1 then n else (fibonacciFrom (n.toInt.toNat - 1) 0 1).2

/-- The product of `acc` and of `n` numbers from `i` on. -/
def productFrom : Nat → Int64 → Int64 → Int64
  | 0, _, acc => acc
  | n + 1, i, acc => productFrom n (i + 1) (acc * i)

/-- The factorial, which at most one is one. -/
def factorial (n : Int64) : Int64 := productFrom (n.toInt.toNat - 1) 2 1

/-- The product of `acc` and the `n`-th power of `base`, by squaring. -/
def powerFrom (base : Int64) (n : Nat) (acc : Int64) : Int64 :=
  if n = 0 then acc
  else powerFrom (base * base) (n / 2) (if n % 2 = 1 then acc * base else acc)
termination_by n

/-- The power with an exponent, zero if it is negative. -/
def power (base exponent : Int64) : Int64 :=
  if exponent < 0 then 0 else powerFrom base exponent.toInt.toNat 1

variable {τ : Type}

/-- A builtin that only computes. -/
def pure (name : String) (arity : Int) (f : List Int64 → Int64) : Builtin τ :=
  ⟨name, arity, fun args t => (f args, t)⟩

/-- The builtins that every evaluation knows. -/
def defaults : List (Builtin τ) :=
  [pure "fib" 1 fun args => fibonacci (args.getD 0 0),
   pure "fact" 1 fun args => factorial (args.getD 0 0),
   pure "pow" 2 fun args => power (args.getD 0 0) (args.getD 1 0)]

def sum (args : List Int64) : Int64 := args.foldl (· + ·) 0

def product (args : List Int64) : Int64 := args.foldl (· * ·) 1

def count (args : List Int64) : Int64 := Int64.ofNat args.length

end Builtin

structure Builtins (τ : Type) where
  entries : List (Builtin τ)

namespace Builtins

variable {τ : Type}

/-- The list with a builtin put in its place, instead of one of the same name. -/
def put (b : Builtin τ) : List (Builtin τ) → List (Builtin τ)
  | [] => [b]
  | x :: rest =>
      if b.name = x.name then b :: rest
      else if b.name < x.name then b :: x :: rest
      else x :: put b rest

/-- The table of the default builtins and of more, later ones taking the place of earlier ones. -/
def withDefaults (more : List (Builtin τ)) : Builtins τ :=
  ⟨(Builtin.defaults ++ more).foldl (fun t b => put b t) []⟩

def find? (t : Builtins τ) (name : String) : Option (Builtin τ) := t.entries.find? (·.name == name)

def names (t : Builtins τ) : List String := t.entries.map (·.name)

end Builtins

end TierCalc
