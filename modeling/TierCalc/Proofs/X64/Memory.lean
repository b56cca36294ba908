import Mathlib.Algebra.Group.Nat.Defs
import Mathlib.Tactic.Common
import TierCalc.X64.Machine

/-!
# Loading what was stored

Memory is a bank of aligned words, and an access at any other address lies across two of them. Seen bit by bit
(`bit_load`, `bit_store`) an access takes the upper part of one word and the lower part of the next, so that

* a word that was stored is loaded again (`load_store_self`), and
* storing a word leaves every word alone that shares no byte with it (`load_store_of_apart`),

whatever the addresses are.
-/

namespace TierCalc.X64

/-! ### Bits of words -/

/-- A bit of a word, lowest first. -/
def bit (w : Word) (j : Nat) : Bool := w.toBitVec.getLsbD j

theorem eq_of_bit {v w : Word} (h : ∀ j < 64, bit v j = bit w j) : v = w :=
  Int64.toBitVec_inj.mp (BitVec.eq_of_getLsbD_eq h)

theorem bit_of_ge (w : Word) {j : Nat} (hj : 64 ≤ j) : bit w j = false := BitVec.getLsbD_of_ge _ _ hj

theorem bit_or (x y : UInt64) (j : Nat) : bit (x ||| y).toInt64 j = (bit x.toInt64 j || bit y.toInt64 j) :=
  BitVec.getLsbD_or

theorem bit_and (x y : UInt64) (j : Nat) : bit (x &&& y).toInt64 j = (bit x.toInt64 j && bit y.toInt64 j) :=
  BitVec.getLsbD_and

theorem toNat_shiftAmount {n : UInt64} (hn : n.toNat < 64) : (n.toBitVec % 64).toNat = n.toNat := by
  rw [BitVec.toNat_umod]
  exact Nat.mod_eq_of_lt hn

theorem bit_shiftRight (x : UInt64) {n : UInt64} (hn : n.toNat < 64) (j : Nat) :
    bit (x >>> n).toInt64 j = bit x.toInt64 (j + n.toNat) := by
  change (x.toBitVec >>> (n.toBitVec % 64)).getLsbD j = x.toBitVec.getLsbD (j + n.toNat)
  rw [BitVec.ushiftRight_eq', toNat_shiftAmount hn, BitVec.getLsbD_ushiftRight, Nat.add_comm]

theorem bit_shiftLeft (x : UInt64) {n : UInt64} (hn : n.toNat < 64) {j : Nat} (hj : j < 64) :
    bit (x <<< n).toInt64 j = if n.toNat ≤ j then bit x.toInt64 (j - n.toNat) else false := by
  change (x.toBitVec <<< (n.toBitVec % 64)).getLsbD j = if n.toNat ≤ j then x.toBitVec.getLsbD (j - n.toNat) else false
  rw [BitVec.shiftLeft_eq', toNat_shiftAmount hn, BitVec.getLsbD_shiftLeft]
  split_ifs with hle
  · simp [hj, hle]
  · simp [hj, Nat.lt_of_not_le hle]

theorem bit_mask {n : UInt64} (hn : n.toNat < 64) (j : Nat) :
    bit (((1 : UInt64) <<< n) - 1).toInt64 j = decide (j < n.toNat) := by
  have hp : 2 ^ n.toNat < 2 ^ 64 := Nat.pow_lt_pow_right (by decide) hn
  have hpos : 0 < 2 ^ n.toNat := Nat.two_pow_pos _
  have hs : ((1 : UInt64) <<< n).toNat = 2 ^ n.toNat := by
    rw [UInt64.toNat_shiftLeft, Nat.mod_eq_of_lt hn]
    simp only [UInt64.reduceToNat, Nat.shiftLeft_eq, Nat.one_mul]
    exact Nat.mod_eq_of_lt hp
  have hv : (((1 : UInt64) <<< n) - 1).toNat = 2 ^ n.toNat - 1 := by
    rw [UInt64.toNat_sub_of_le, hs]
    · rfl
    · rw [UInt64.le_iff_toNat_le, hs]
      exact hpos
  change (((1 : UInt64) <<< n) - 1).toNat.testBit j = decide (j < n.toNat)
  rw [hv, Nat.testBit_two_pow_sub_one]

namespace State

/-! ### Words across two places -/

/-- The greatest multiple of eight that is no greater than an address. -/
def below (a : Word) : Word := a - (excess a).toInt64

/-- By how many bits an address lies beyond a multiple of eight bytes. -/
def offsetBits (a : Word) : Nat := 8 * (excess a).toNat

theorem excess_lt (a : Word) : (excess a).toNat < 8 := by
  have h : (excess a).toNat = a.toUInt64.toNat % 8 := by simp [excess]
  omega

theorem offsetBits_lt (a : Word) : offsetBits a < 64 := by
  have := excess_lt a
  unfold offsetBits
  omega

theorem offsetBits_pos {a : Word} (h : excess a ≠ 0) : 0 < offsetBits a := by
  have h0 : (excess a).toNat ≠ 0 := fun e => h (UInt64.toNat_inj.mp e)
  unfold offsetBits
  omega

theorem toNat_shift (a : Word) : (8 * excess a).toNat = offsetBits a := by
  have h := excess_lt a
  rw [UInt64.toNat_mul, offsetBits]
  simp only [UInt64.reduceToNat]
  omega

theorem toNat_coshift (a : Word) : (64 - 8 * excess a).toNat = 64 - offsetBits a := by
  have h := offsetBits_lt a
  rw [UInt64.toNat_sub_of_le, toNat_shift]
  · rfl
  · rw [UInt64.le_iff_toNat_le, toNat_shift]
    exact Nat.le_of_lt h

theorem below_of_excess {a : Word} (h : excess a = 0) : below a = a := by simp [below, h]

theorem offsetBits_of_excess {a : Word} (h : excess a = 0) : offsetBits a = 0 := by simp [offsetBits, h]

theorem ne_add_eight (a : Word) : a ≠ a + 8 := by
  intro h
  have h1 := congrArg (· - a) h
  simp only [Int64.sub_self, Int64.add_comm a, Int64.add_sub_cancel] at h1
  exact absurd h1 (by decide)

theorem bit_load (s : State) (a : Word) {j : Nat} (hj : j < 64) :
    bit (s.load a) j =
      if j + offsetBits a < 64 then bit (s.mem.get (below a)) (j + offsetBits a)
      else bit (s.mem.get (below a + 8)) (j + offsetBits a - 64) := by
  by_cases h : excess a = 0
  · simp [load, h, below_of_excess h, offsetBits_of_excess h, hj]
  · have hlt := offsetBits_lt a
    have hpos := offsetBits_pos h
    have hs : (8 * excess a).toNat < 64 := by rw [toNat_shift]; exact hlt
    have hc : (64 - 8 * excess a).toNat < 64 := by rw [toNat_coshift]; omega
    simp only [load, h, if_false]
    rw [bit_or, bit_shiftRight _ hs, bit_shiftLeft _ hc hj, toNat_shift, toNat_coshift]
    simp only [Int64.toInt64_toUInt64, below]
    split_ifs with h1 h2 h2
    · omega
    · rw [bit_of_ge _ (by omega : 64 ≤ j + offsetBits a), Bool.false_or]
      congr 1
      omega
    · rw [Bool.or_false]
    · omega

/-- Storing a word changes the upper part of one word and the lower part of the next. -/
theorem bit_store (s : State) (a w x : Word) {j : Nat} (hj : j < 64) :
    bit ((s.store a w).mem.get x) j =
      if x = below a ∧ offsetBits a ≤ j then bit w (j - offsetBits a)
      else if x = below a + 8 ∧ j < offsetBits a then bit w (j + 64 - offsetBits a)
      else bit (s.mem.get x) j := by
  by_cases h : excess a = 0
  · by_cases hx : x = a
    · subst hx
      simp [store, h, below_of_excess h, offsetBits_of_excess h]
    · simp [store, h, below_of_excess h, offsetBits_of_excess h, hx, Bank.get_set_of_ne]
  · have hlt := offsetBits_lt a
    have hpos := offsetBits_pos h
    have hs : (8 * excess a).toNat < 64 := by rw [toNat_shift]; exact hlt
    have hc : (64 - 8 * excess a).toNat < 64 := by rw [toNat_coshift]; omega
    have hne := ne_add_eight (below a)
    simp only [store, h, if_false]
    rw [← below]
    by_cases hx : x = below a + 8
    · subst hx
      rw [Bank.get_set_self, bit_or, bit_shiftLeft _ hs hj, bit_shiftRight _ hc, toNat_shift, toNat_coshift]
      simp only [hne.symm, false_and, if_false, true_and, Int64.toInt64_toUInt64]
      by_cases hle : offsetBits a ≤ j
      · rw [if_pos hle, if_neg (by omega), bit_shiftRight _ hs, toNat_shift,
          bit_of_ge w (by omega : 64 ≤ j + (64 - offsetBits a)), Bool.or_false, Nat.sub_add_cancel hle,
          Int64.toInt64_toUInt64]
      · rw [if_neg hle, if_pos (by omega), Bool.false_or]
        congr 1
        omega
    · rw [Bank.get_set_of_ne _ hx]
      by_cases hx' : x = below a
      · subst hx'
        rw [Bank.get_set_self, bit_or, bit_and, bit_mask hs, bit_shiftLeft _ hs hj, toNat_shift]
        simp only [hne, false_and, if_false, true_and, Int64.toInt64_toUInt64]
        by_cases hle : offsetBits a ≤ j
        · simp [hle, Nat.not_lt.mpr hle]
        · simp [hle, Nat.lt_of_not_le hle]
      · rw [Bank.get_set_of_ne _ hx']
        simp [hx, hx']

/-- A stored word is loaded again. -/
theorem load_store_self (s : State) (a w : Word) : (s.store a w).load a = w := by
  have hlt := offsetBits_lt a
  have hne := ne_add_eight (below a)
  apply eq_of_bit
  intro j hj
  rw [bit_load _ _ hj]
  split_ifs with h
  · rw [bit_store _ _ _ _ h, if_pos ⟨rfl, Nat.le_add_left _ _⟩, Nat.add_sub_cancel]
  · rw [bit_store _ _ _ _ (by omega), if_neg (fun hc => hne hc.1.symm), if_pos ⟨rfl, by omega⟩]
    congr 1
    omega

/-! ### Words that share no byte -/

/-- Whether the words at two addresses share no byte. Addresses wrap around. -/
def Apart (a b : Word) : Prop := 8 ≤ (a - b).toUInt64.toNat ∧ 8 ≤ (b - a).toUInt64.toNat

instance (a b : Word) : Decidable (Apart a b) := inferInstanceAs (Decidable (_ ∧ _))

theorem Apart.symm {a b : Word} (h : Apart a b) : Apart b a := ⟨h.2, h.1⟩

theorem toNat_below (a : Word) : (below a).toUInt64.toNat = a.toUInt64.toNat - (excess a).toNat := by
  have h : (excess a).toNat = a.toUInt64.toNat % 8 := by simp [excess]
  change (a.toUInt64 - excess a).toNat = _
  rw [UInt64.toNat_sub_of_le]
  rw [UInt64.le_iff_toNat_le, h]
  exact Nat.mod_le _ _

theorem toNat_sub (a b : Word) :
    (a - b).toUInt64.toNat = (2 ^ 64 - b.toUInt64.toNat + a.toUInt64.toNat) % 2 ^ 64 := by
  rw [Int64.toUInt64_sub, UInt64.toNat_sub]

theorem toNat_add_eight (a : Word) : (a + 8).toUInt64.toNat = (a.toUInt64.toNat + 8) % 2 ^ 64 := by
  rw [Int64.toUInt64_add, UInt64.toNat_add]
  rfl

theorem load_store_of_apart (s : State) {a b : Word} (h : Apart a b) (w : Word) :
    (s.store a w).load b = s.load b := by
  have hea : (excess a).toNat = a.toUInt64.toNat % 8 := by simp [excess]
  have heb : (excess b).toNat = b.toUInt64.toNat % 8 := by simp [excess]
  have ha := a.toUInt64.toNat_lt
  have hb := b.toUInt64.toNat_lt
  obtain ⟨hab, hba⟩ := h
  rw [toNat_sub] at hab hba
  have h1 : below b ≠ below a := by
    intro e
    have e' := congrArg (fun x : Word => x.toUInt64.toNat) e
    simp only [toNat_below] at e'
    omega
  have h2 : below b = below a + 8 → offsetBits a ≤ offsetBits b := by
    intro e
    have e' := congrArg (fun x : Word => x.toUInt64.toNat) e
    simp only [toNat_below, toNat_add_eight] at e'
    unfold offsetBits
    omega
  have h3 : below b + 8 = below a → offsetBits b ≤ offsetBits a := by
    intro e
    have e' := congrArg (fun x : Word => x.toUInt64.toNat) e
    simp only [toNat_below, toNat_add_eight] at e'
    unfold offsetBits
    omega
  have h4 : below b + 8 ≠ below a + 8 := fun e => h1 ((Int64.add_left_inj 8).mp e)
  apply eq_of_bit
  intro j hj
  rw [bit_load _ _ hj, bit_load _ _ hj]
  split_ifs with hlt
  · rw [bit_store _ _ _ _ hlt, if_neg (fun hc => h1 hc.1), if_neg]
    rintro ⟨e, hj'⟩
    have := h2 e
    omega
  · have := offsetBits_lt b
    rw [bit_store _ _ _ _ (by omega), if_neg, if_neg (fun hc => h4 hc.1)]
    rintro ⟨e, hj'⟩
    have := h3 e
    omega

end State

end TierCalc.X64
