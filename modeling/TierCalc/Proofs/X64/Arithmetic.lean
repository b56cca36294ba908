import Mathlib.Tactic.Common
import TierCalc.Operator
import TierCalc.X64.Machine

/-!
# What the arithmetic instructions compute

The machine's flags, its signed division and its byte registers in terms of 64-bit integers.

* A comparison decides equality by the zero flag and order by the sign and overflow flags together.
* Division of a sign-extended dividend is division of the integers, unless the quotient does not fit.
* A condition written to the low byte of a register and widened again is one or zero.
-/

namespace TierCalc.X64

/-! ### Flags -/

namespace Flags

@[simp] theorem holds_equal (f : Flags) : f.holds .equal = f.zero := rfl

@[simp] theorem holds_notEqual (f : Flags) : f.holds .notEqual = !f.zero := rfl

@[simp] theorem holds_less (f : Flags) : f.holds .less = (f.sign != f.overflow) := rfl

@[simp] theorem holds_greaterEqual (f : Flags) : f.holds .greaterEqual = !(f.sign != f.overflow) := rfl

@[simp] theorem holds_lessEqual (f : Flags) : f.holds .lessEqual = (f.zero || f.sign != f.overflow) := rfl

@[simp] theorem holds_greater (f : Flags) : f.holds .greater = !(f.zero || f.sign != f.overflow) := rfl

theorem zero_ofResult_self (x : Word) :
    (ofResult (x.toUInt64 &&& x.toUInt64).toInt64 false false).zero = (x == 0) := by
  rw [UInt64.and_self]
  rfl

theorem zero_ofDifference (x y : Word) : (ofDifference x y).zero = (x == y) := by
  change (x - y == 0) = (x == y)
  by_cases h : x = y
  · subst h
    simp
  · have h' : x - y ≠ 0 := by
      intro e
      apply h
      rw [← Int64.sub_add_cancel x y, e, Int64.zero_add]
    simp [h, h']

/-- The sign of a difference is the true one unless it overflowed. -/
theorem sign_ne_overflow_ofDifference (x y : Word) :
    ((ofDifference x y).sign != (ofDifference x y).overflow) = decide (x < y) := by
  change (decide (x - y < 0) != ((x - y).toInt != x.toInt - y.toInt)) = decide (x < y)
  have hx := x.le_toInt
  have hx' := x.toInt_lt
  have hy := y.le_toInt
  have hy' := y.toInt_lt
  have hd : (x - y).toInt = x.toInt - y.toInt ∨ (x - y).toInt = x.toInt - y.toInt - 2 ^ 64 ∧ 0 < x.toInt - y.toInt
      ∨ (x - y).toInt = x.toInt - y.toInt + 2 ^ 64 ∧ x.toInt - y.toInt < 0 := by
    have h := Int64.toInt_sub x y
    rw [Int.bmod_def] at h
    split_ifs at h <;> omega
  have hr := (x - y).le_toInt
  have hr' := (x - y).toInt_lt
  simp only [Int64.lt_iff_toInt_lt, Int64.toInt_zero]
  generalize (x - y).toInt = d at *
  obtain rfl | ⟨rfl, h0⟩ | ⟨rfl, h0⟩ := hd
  · simp only [bne_self_eq_false, Bool.bne_false, decide_eq_decide]
    omega
  · have h1 : x.toInt - y.toInt - 2 ^ 64 < 0 := by omega
    have h2 : x.toInt - y.toInt - 2 ^ 64 ≠ x.toInt - y.toInt := by omega
    have h3 : ¬ x.toInt < y.toInt := by omega
    rw [decide_eq_true h1, bne_iff_ne.mpr h2, decide_eq_false h3]
    rfl
  · have h1 : ¬ x.toInt - y.toInt + 2 ^ 64 < 0 := by omega
    have h2 : x.toInt - y.toInt + 2 ^ 64 ≠ x.toInt - y.toInt := by omega
    have h3 : x.toInt < y.toInt := by omega
    rw [decide_eq_false h1, bne_iff_ne.mpr h2, decide_eq_true h3]
    rfl

end Flags

/-! ### Division -/

theorem div_neg_one (x : Word) : x / -1 = -x := by
  apply Int64.toInt_inj.mp
  rw [Int64.toInt_div, show (-1 : Word).toInt = -1 from rfl, Int.tdiv_neg, Int.tdiv_one, Int64.toInt_neg]

theorem mod_neg_one (x : Word) : x % -1 = 0 := by
  apply Int64.toInt_inj.mp
  rw [Int64.toInt_mod, show (-1 : Word).toInt = -1 from rfl, Int.tmod_neg, Int.tmod_one]
  rfl

theorem toNat_toUInt64 (x : Word) :
    (x.toUInt64.toNat : Int) = if x < 0 then x.toInt + 0x10000000000000000 else x.toInt := by
  have h : x.toInt = if 2 * x.toUInt64.toNat < 2 ^ 64 then (x.toUInt64.toNat : Int)
      else x.toUInt64.toNat - (2 ^ 64 : Nat) := BitVec.toInt_eq_toNat_cond x.toBitVec
  have hlt := x.toUInt64.toNat_lt
  have hs : x < 0 ↔ x.toInt < 0 := Int64.lt_iff_toInt_lt
  simp only [hs]
  split_ifs at h ⊢ <;> omega

/-- Division of a sign-extended word is division of integers. -/
theorem divide_signExtended {x d : Word} (hd : d ≠ 0) (hm : d ≠ -1) :
    divide (if x < 0 then -1 else 0) x d = some (x / d, x % d) := by
  have hn : (if x < 0 then (-1 : Word) else 0).toInt * 0x10000000000000000 + x.toUInt64.toNat = x.toInt := by
    rw [toNat_toUInt64]
    split_ifs
    · rw [show (-1 : Word).toInt = -1 from rfl]
      omega
    · rw [Int64.toInt_zero]
      omega
  have hq : x.toInt.tdiv d.toInt = (x / d).toInt := (Int64.toInt_div_of_ne_right x d hm).symm
  have hr : x.toInt.tmod d.toInt = (x % d).toInt := (Int64.toInt_mod x d).symm
  have hd0 : d.toInt ≠ 0 := fun e => hd (Int64.toInt_inj.mp e)
  have h1 := (x / d).le_toInt
  have h2 := (x / d).toInt_lt
  simp only [divide, hn, hq, hr, Int64.ofInt_toInt]
  rw [if_neg]
  omega

/-! ### Byte registers -/

namespace State

theorem getLsbD_255 (i : Nat) : (255#64).getLsbD i = decide (i < 8) := by
  rw [show (255#64 : BitVec 64) = BitVec.ofNat 64 (2 ^ 8 - 1) from rfl, BitVec.getLsbD_ofNat,
    Nat.testBit_two_pow_sub_one]
  by_cases h : i < 8
  · simp [h, show i < 64 by omega]
  · simp [h]

theorem low_byte_put (w v : UInt64) (hv : ∀ i, 8 ≤ i → v.toBitVec.getLsbD i = false) :
    ((w ^^^ (w &&& 0xFF)) ||| v) &&& 0xFF = v := by
  apply UInt64.toBitVec_inj.mp
  apply BitVec.eq_of_getLsbD_eq
  intro i _
  change (((w.toBitVec ^^^ (w.toBitVec &&& 255#64)) ||| v.toBitVec) &&& 255#64).getLsbD i = v.toBitVec.getLsbD i
  rw [BitVec.getLsbD_and, BitVec.getLsbD_or, BitVec.getLsbD_xor, BitVec.getLsbD_and, getLsbD_255]
  by_cases h : i < 8
  · simp [h]
  · simp [h, hv i (by omega)]

/-- A condition in the low byte of a register, widened again, is one or zero. -/
theorem getByte_setByte_rax (s : State) (b : Bool) :
    (s.setByte .rax (if b then 1 else 0)).getByte .rax = Operator.truth b := by
  have hreg (v : UInt64) : (s.setByte .rax v).reg .rax =
      (((s.reg .rax).toUInt64 ^^^ ((s.reg .rax).toUInt64 &&& ((0xFF : UInt64) <<< 0))) ||| (v <<< 0)).toInt64 :=
    Bank.get_set_self _ _ _
  have hbyte (v : UInt64) : (s.setByte .rax v).getByte .rax =
      ((((s.reg .rax).toUInt64 ^^^ ((s.reg .rax).toUInt64 &&& 0xFF)) ||| v) &&& 0xFF).toInt64 := by
    change ((((s.setByte .rax v).reg .rax).toUInt64 >>> 0) &&& 0xFF).toInt64 = _
    rw [hreg, UInt64.toUInt64_toInt64, UInt64.shiftLeft_zero, UInt64.shiftLeft_zero, UInt64.shiftRight_zero]
  rw [hbyte, low_byte_put]
  · cases b <;> rfl
  · intro i hi
    cases b with
    | false => exact BitVec.getLsbD_zero
    | true =>
        change (1#64).getLsbD i = false
        rw [BitVec.getLsbD_one]
        simp
        omega

end State

end TierCalc.X64
