import TierCalc.Routine.Generate

/-!
# The order in which code computes

The code of an expression computes right operands before left ones and keeps variables in slots. `Expr.backward` is
that computation without the machine: it works on a `Store`, which has for every name the word in its slot and the
word that tells whether it was assigned, and it ends early with a status when a divisor is zero.
-/

namespace TierCalc

namespace Routine

/-- The words of the slots by name, and the words that tell whether a name was assigned. -/
structure Store where
  value : String → Int64
  flag : String → Int64

/-- The store after an assignment. -/
def Store.assign (σ : Store) (name : String) (v : Int64) : Store where
  value n := if n = name then v else σ.value n
  flag n := if n = name then 1 else σ.flag n

/-- How a computation ends: with a value or a status, and with a store. -/
abbrev Outcome := Except Int32 Int64 × Store

/-- Goes on with the value and the store, unless there is a status. -/
def Outcome.andThen (r : Outcome) (next : Int64 → Store → Outcome) : Outcome :=
  match r with
  | (.ok v, σ) => next v σ
  | (.error status, σ) => (.error status, σ)

@[simp] theorem Outcome.andThen_ok (v : Int64) (σ : Store) (next : Int64 → Store → Outcome) :
    Outcome.andThen (.ok v, σ) next = next v σ := rfl

@[simp] theorem Outcome.andThen_error (status : Int32) (σ : Store) (next : Int64 → Store → Outcome) :
    Outcome.andThen (.error status, σ) next = (.error status, σ) := rfl

/-- What holds of the store and is kept by going on holds in the end. -/
theorem Outcome.andThen_store {P : Store → Prop} {r : Outcome} {next : Int64 → Store → Outcome} (hr : P r.2)
    (hnext : ∀ v σ, P σ → P (next v σ).2) : P (r.andThen next).2 := by
  obtain ⟨status | v, σ⟩ := r
  · exact hr
  · exact hnext v σ hr

theorem Outcome.andThen_status {P : Int32 → Prop} {r : Outcome} {next : Int64 → Store → Outcome}
    (hr : ∀ status, r.1 = .error status → P status)
    (hnext : ∀ v σ status, (next v σ).1 = .error status → P status) (status : Int32)
    (h : (r.andThen next).1 = .error status) : P status := by
  obtain ⟨status' | v, σ⟩ := r
  · exact hr status h
  · exact hnext v σ status h

/-- The value of an operator, or the status that its code leaves. -/
def applied (o : Operator) (x y : Int64) : Except Int32 Int64 :=
  match o.apply x y with
  | some v => .ok v
  | none => .error (statusOf (o == .modulo))

end Routine

namespace Expr

open Routine

/-- What the code of an expression computes. There is no code for calls and for numbers without an operator. -/
def backward : Expr → Store → Outcome
  | int _ _ v, σ => (.ok v, σ)
  | ident _ name, σ => (.ok (σ.value name), σ)
  | binary l _ op r, σ =>
      (backward r σ).andThen fun y σ => (backward l σ).andThen fun x σ =>
        match Operator.ofNumber? op with
        | some o => (applied o x y, σ)
        | none => (.ok 0, σ)
  | assign _ name _ v, σ => (backward v σ).andThen fun x σ => (.ok x, σ.assign name x)
  | call _ _ _ _ _, σ => (.ok 0, σ)
  | cond _ _ c y n _, σ => (backward c σ).andThen fun x σ => if x ≠ 0 then backward y σ else backward n σ

end Expr

end TierCalc
