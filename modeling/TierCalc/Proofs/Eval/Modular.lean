import Mathlib.Data.Nat.Factorial.Basic
import Mathlib.Data.Nat.Fib.Basic
import TierCalc.Eval.Builtin

/-!
# The default functions modulo `2 ^ 64`

Taking an integer to its 64-bit word respects sums and products, so a loop on words holds the words of what the same
loop holds on integers, whatever overflows on the way. Each loop has one equation of this kind (`fibonacciFrom_ofInt`,
`productFrom_ofInt`, `powerFrom_ofInt`); only at the end is the word read back as a signed number, which is the
representative modulo `2 ^ 64` that lies nearest to zero (`functions_modular`).
-/

namespace TierCalc.Builtin

/-! ### Loops on words -/

/-- From two Fibonacci numbers in a row, the loop gets to those `n` places further on. -/
theorem fibonacciFrom_ofInt (k n : Nat) :
    fibonacciFrom n (.ofInt (Nat.fib k)) (.ofInt (Nat.fib (k + 1))) =
      (.ofInt (Nat.fib (k + n)), .ofInt (Nat.fib (k + n + 1))) := by
  induction n generalizing k with
  | zero => rfl
  | succ n ih =>
      have hnext : (Nat.fib (k + 1 + 1) : Int) = Nat.fib k + Nat.fib (k + 1) := by
        rw [Nat.fib_add_two, Nat.cast_add]
      rw [fibonacciFrom, ← Int64.ofInt_add, ← hnext, ih (k + 1), Nat.add_right_comm k 1 n, Nat.add_assoc k n 1]

/-- From the factorial of `k`, the loop gets to that of `k + n`. -/
theorem productFrom_ofInt (k n : Nat) :
    productFrom n (.ofInt (k + 1)) (.ofInt k.factorial) = .ofInt (k + n).factorial := by
  induction n generalizing k with
  | zero => rfl
  | succ n ih =>
      have hnext : ((k + 1).factorial : Int) = k.factorial * (k + 1) := by
        rw [Nat.factorial_succ, Nat.cast_mul, Nat.cast_succ, mul_comm]
      have hcount : Int64.ofInt (k + 1) + 1 = .ofInt ((k + 1 : Nat) + 1) := by
        rw [Int64.ofInt_add ((k + 1 : Nat) : Int) 1, Nat.cast_succ]
        rfl
      rw [productFrom, ← Int64.ofInt_mul, ← hnext, hcount, ih (k + 1), Nat.add_right_comm k 1 n, Nat.add_assoc k n 1]

/-- The loop multiplies by the power that is left. One round takes the last binary digit off the exponent, and goes on
with the square of the base. -/
theorem powerFrom_ofInt (b : Int) (n : Nat) (a : Int) : powerFrom (.ofInt b) n (.ofInt a) = .ofInt (a * b ^ n) := by
  induction n using Nat.strongRecOn generalizing a b with
  | ind n ih =>
      rw [powerFrom]
      by_cases hn : n = 0
      · rw [if_pos hn, hn, pow_zero, mul_one]
      · have hdigit : b ^ n = b ^ (n % 2) * (b * b) ^ (n / 2) := by
          rw [← pow_two, ← pow_mul, ← pow_add, Nat.mod_add_div]
        have hfactor : (if n % 2 = 1 then Int64.ofInt a * .ofInt b else .ofInt a) = .ofInt (a * b ^ (n % 2)) := by
          rcases Nat.mod_two_eq_zero_or_one n with h | h
          · simp [h]
          · simp [h, Int64.ofInt_mul]
        rw [if_neg hn, hfactor, ← Int64.ofInt_mul, ih (n / 2) (by omega), hdigit, mul_assoc]

/-! ### The functions -/

theorem toInt_power {base exponent : Int64} (h : 0 ≤ exponent) :
    (power base exponent).toInt = (base.toInt ^ exponent.toInt.toNat).bmod (2 ^ 64) := by
  have hpower := powerFrom_ofInt base.toInt exponent.toInt.toNat 1
  rw [Int64.ofInt_toInt, one_mul] at hpower
  rw [power, if_neg (Int64.not_lt.mpr h)]
  exact (congrArg Int64.toInt hpower).trans Int64.toInt_ofInt

theorem toInt_fibonacci {n : Int64} (h : 1 < n) :
    (fibonacci n).toInt = (Nat.fib n.toInt.toNat : Int).bmod (2 ^ 64) := by
  have hn : 1 < n.toInt := Int64.lt_iff_toInt_lt.mp h
  have hloop := fibonacciFrom_ofInt 0 (n.toInt.toNat - 1)
  have hcount : 0 + (n.toInt.toNat - 1) + 1 = n.toInt.toNat := by omega
  rw [hcount] at hloop
  rw [fibonacci, if_neg (Int64.not_le.mpr h)]
  exact (congrArg (fun p => p.2.toInt) hloop).trans Int64.toInt_ofInt

theorem toInt_factorial {n : Int64} (h : 1 < n) :
    (factorial n).toInt = (n.toInt.toNat.factorial : Int).bmod (2 ^ 64) := by
  have hn : 1 < n.toInt := Int64.lt_iff_toInt_lt.mp h
  have hloop := productFrom_ofInt 1 (n.toInt.toNat - 1)
  have hcount : 1 + (n.toInt.toNat - 1) = n.toInt.toNat := by omega
  rw [hcount] at hloop
  rw [factorial]
  exact (congrArg Int64.toInt hloop).trans Int64.toInt_ofInt

theorem factorial_of_le_one {n : Int64} (h : n ≤ 1) : factorial n = 1 := by
  have hn : n.toInt ≤ 1 := Int64.le_iff_toInt_le.mp h
  have hcount : n.toInt.toNat - 1 = 0 := by omega
  rw [factorial, hcount, productFrom]

/-- The power, the Fibonacci number and the factorial are the signed representatives modulo `2 ^ 64` of what they are on
integers, and have the given values where the exponent is negative or the argument at most one. -/
theorem functions_modular :
    (∀ base exponent : Int64, 0 ≤ exponent →
      (power base exponent).toInt = (base.toInt ^ exponent.toInt.toNat).bmod (2 ^ 64)) ∧
    (∀ base exponent : Int64, exponent < 0 → power base exponent = 0) ∧
    (∀ n : Int64, 1 < n → n.toInt < 2 ^ 63 - 1 →
      (fibonacci n).toInt = (Nat.fib n.toInt.toNat : Int).bmod (2 ^ 64) ∧
        (factorial n).toInt = (n.toInt.toNat.factorial : Int).bmod (2 ^ 64)) ∧
    ∀ n : Int64, n ≤ 1 → fibonacci n = n ∧ factorial n = 1 := by
  refine ⟨fun base exponent h => toInt_power h, fun base exponent h => if_pos h, fun n h _ => ?_, fun n h => ?_⟩
  · exact ⟨toInt_fibonacci h, toInt_factorial h⟩
  · exact ⟨if_pos h, factorial_of_le_one h⟩

/-- An odd power of a negative number that wraps around to a positive one, the first Fibonacci number and the first
factorial that do not fit, and the values below. -/
theorem functions_modular_wrap :
    (power (-3) 41).toInt = 420491770248316829 ∧ power 2 (-1) = 0 ∧
      (fibonacci 93).toInt = -6246583658587674878 ∧ (factorial 21).toInt = -4249290049419214848 ∧
      fibonacci (-5) = -5 ∧ factorial (-5) = 1 := by
  obtain ⟨hpower, hnegative, hlarge, hsmall⟩ := functions_modular
  obtain ⟨hfibonacci, -⟩ := hlarge 93 (by decide) (by decide)
  obtain ⟨-, hfactorial⟩ := hlarge 21 (by decide) (by decide)
  refine ⟨(hpower (-3) 41 (by decide)).trans ?_, hnegative 2 (-1) (by decide), hfibonacci.trans ?_,
    hfactorial.trans ?_, hsmall (-5) (by decide)⟩
  · decide +kernel
  · decide +kernel
  · decide +kernel

end TierCalc.Builtin
