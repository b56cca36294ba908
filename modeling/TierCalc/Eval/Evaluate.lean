import TierCalc.Eval.Builtin
import TierCalc.Eval.Error
import TierCalc.Eval.Scope
import TierCalc.Expr.Basic

/-!
# Evaluation

The meaning of an expression over a scope of variables and a table of builtins.

* Operands and arguments are evaluated from left to right, and of a conditional only the chosen branch.
* An assignment takes effect in the scope when it is reached; what was assigned before a failure stays.
* A call is checked before its arguments are evaluated: first that the function is known, then their number.

A run answers a value or a fault, and the scope and the world as they are then.
-/

namespace TierCalc

/-- The ways in which evaluation ends without a value. -/
inductive Fault where
  | error (e : EvalError)
  | invalidOperator (number : UInt8)
deriving DecidableEq, Repr

namespace Fault

/-- The message of a run that met an operator number without an operator. -/
def invalidOperatorText (number : UInt8) : String := "interp: unexpected operator " ++ Operator.symbolOf number

end Fault

/-- How a run ended, with the scope and the world that it left. -/
structure Run (σ τ α : Type) where
  result : Except Fault α
  scope : σ
  world : τ

namespace Expr

variable {σ τ : Type} [Scope σ]

/-- Combines the values of two operands. -/
def combine (op : UInt8) (opPos : Position) (x y : Int64) : Except Fault Int64 :=
  match Operator.ofNumber? op with
  | none => .error (.invalidOperator op)
  | some o =>
      match o.apply x y with
      | some v => .ok v
      | none => .error (.error (.divisionByZero o.symbol (.ofPosition opPos)))

/-- The builtin that a call means, if it is known and takes that many arguments. -/
def resolve (fns : Builtins τ) (namePos : Position) (name : String) (count : Nat) :
    Except Fault (Builtin τ) :=
  match fns.find? name with
  | none => .error (.error (.unknownFunction name (.ofPosition namePos) fns.names))
  | some fn =>
      if (count : Int) = fn.arity then .ok fn
      else .error (.error { cause := .arity fn.name fn.arity count, location := .ofPosition namePos })

mutual

def eval (fns : Builtins τ) : Expr → σ → τ → Run σ τ Int64
  | int _ _ v, s, t => ⟨.ok v, s, t⟩
  | ident p name, s, t =>
      match Scope.get? s name with
      | some v => ⟨.ok v, s, t⟩
      | none => ⟨.error (.error (.undefinedVariable name (.ofPosition p) (Scope.names s))), s, t⟩
  | binary l p op r, s, t =>
      match eval fns l s t with
      | ⟨.error f, s, t⟩ => ⟨.error f, s, t⟩
      | ⟨.ok x, s, t⟩ =>
          match eval fns r s t with
          | ⟨.error f, s, t⟩ => ⟨.error f, s, t⟩
          | ⟨.ok y, s, t⟩ => ⟨combine op p x y, s, t⟩
  | assign _ name _ value, s, t =>
      match eval fns value s t with
      | ⟨.error f, s, t⟩ => ⟨.error f, s, t⟩
      | ⟨.ok v, s, t⟩ => ⟨.ok v, Scope.set s name v, t⟩
  | call p name _ args _, s, t =>
      match resolve fns p name args.length with
      | .error f => ⟨.error f, s, t⟩
      | .ok fn =>
          match evalArgs fns args s t with
          | ⟨.error f, s, t⟩ => ⟨.error f, s, t⟩
          | ⟨.ok vs, s, t⟩ => ⟨.ok (fn.run vs t).1, s, (fn.run vs t).2⟩
  | cond _ _ c y n _, s, t =>
      match eval fns c s t with
      | ⟨.error f, s, t⟩ => ⟨.error f, s, t⟩
      | ⟨.ok v, s, t⟩ => if v ≠ 0 then eval fns y s t else eval fns n s t

def evalArgs (fns : Builtins τ) : List Expr → σ → τ → Run σ τ (List Int64)
  | [], s, t => ⟨.ok [], s, t⟩
  | a :: rest, s, t =>
      match eval fns a s t with
      | ⟨.error f, s, t⟩ => ⟨.error f, s, t⟩
      | ⟨.ok v, s, t⟩ =>
          match evalArgs fns rest s t with
          | ⟨.error f, s, t⟩ => ⟨.error f, s, t⟩
          | ⟨.ok vs, s, t⟩ => ⟨.ok (v :: vs), s, t⟩

end

end Expr

end TierCalc
