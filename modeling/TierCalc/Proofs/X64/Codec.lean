import Mathlib.Tactic.Common
import Mathlib.Tactic.IntervalCases
import TierCalc.X64.Decode

/-!
# Decoding what was encoded

An instruction that has an encoding of its own (`Instr.Encodable`) is read back from its bytes, whatever follows them
(`Instr.decode_encode`). A sequence of such instructions is split at the right places (`decodeAll_encodeAll`).
-/

namespace TierCalc.X64

/-! ### Fields -/

theorem word32_le32 (w : UInt32) :
    Bytes.word32 w.toUInt8 (w >>> 8).toUInt8 (w >>> 16).toUInt8 (w >>> 24).toUInt8 = w := by
  apply UInt32.toBitVec_inj.mp
  apply BitVec.eq_of_getLsbD_eq
  intro i hi
  have hcases : i < 8 ∨ (8 ≤ i ∧ i < 16) ∨ (16 ≤ i ∧ i < 24) ∨ 24 ≤ i := by omega
  simp only [Bytes.word32, UInt32.toBitVec_or, UInt32.toBitVec_shiftLeft, UInt8.toBitVec_toUInt32,
    UInt32.toBitVec_toUInt8, UInt32.toBitVec_shiftRight, BitVec.getLsbD_or]
  rcases hcases with h | ⟨h, h'⟩ | ⟨h, h'⟩ | h
  · simp [hi, h, show i < 16 by omega, show i < 24 by omega]
  · simp [hi, h', Nat.not_lt.mpr h, show i < 24 by omega, show i - 8 < 8 by omega, show i - 8 < 32 by omega,
      show 8 + (i - 8) = i by omega]
  · simp [hi, h', Nat.not_lt.mpr h, show ¬ i < 8 by omega, show ¬ i - 8 < 8 by omega, show i - 16 < 8 by omega,
      show i - 16 < 32 by omega, show 16 + (i - 16) = i by omega]
  · simp [hi, Nat.not_lt.mpr h, show ¬ i < 8 by omega, show ¬ i < 16 by omega, show ¬ i - 8 < 8 by omega,
      show ¬ i - 16 < 8 by omega, show i - 24 < 8 by omega, show i - 24 < 32 by omega, show 24 + (i - 24) = i by omega]

theorem word64_halves (w : UInt64) : Bytes.word64 w.toUInt32 (w >>> 32).toUInt32 = w := by
  apply UInt64.toBitVec_inj.mp
  apply BitVec.eq_of_getLsbD_eq
  intro i hi
  simp only [Bytes.word64, UInt64.toBitVec_or, UInt64.toBitVec_shiftLeft, UInt32.toBitVec_toUInt64,
    UInt64.toBitVec_toUInt32, UInt64.toBitVec_shiftRight, BitVec.getLsbD_or]
  rcases Nat.lt_or_ge i 32 with h | h
  · simp [hi, h]
  · simp [hi, Nat.not_lt.mpr h, show i - 32 < 32 by omega, show i - 32 < 64 by omega, show 32 + (i - 32) = i by omega]

theorem le64_eq (w : UInt64) : Bytes.le64 w = Bytes.le32 w.toUInt32 ++ Bytes.le32 (w >>> 32).toUInt32 := by
  simp only [Bytes.le64, Bytes.le32, List.cons_append, List.nil_append, List.cons.injEq, and_true]
  refine ⟨?_, ?_, ?_, ?_, ?_, ?_, ?_, ?_⟩
  all_goals
    apply UInt8.toBitVec_inj.mp
    apply BitVec.eq_of_getLsbD_eq
    intro i hi
    simp [hi, Nat.add_left_comm, ← Nat.add_assoc, show 8 + i < 32 by omega, show 16 + i < 32 by omega,
      show 24 + i < 32 by omega]

namespace Decode

theorem field_le32 (v : Int32) (rest : Bytes) : field (Instr.field v ++ rest) = .ok (v, rest) := by
  simp only [Instr.field, Bytes.le32, List.cons_append, List.nil_append, field, word32_le32]
  rfl

theorem wideField_le64 (v : Int64) (rest : Bytes) : wideField (Bytes.le64 v.toUInt64 ++ rest) = .ok (v, rest) := by
  rw [le64_eq]
  simp only [Bytes.le32, List.cons_append, List.nil_append, wideField, word32_le32, word64_halves]
  rfl

/-! ### Register bytes -/

theorem mode_direct (n : UInt8) (r : Reg) : mode (Instr.direct n r) = 3 := by
  apply UInt8.toBitVec_inj.mp
  apply BitVec.eq_of_getLsbD_eq
  intro i hi
  interval_cases i <;> simp [mode, Instr.direct, Reg.low]

theorem mode_indirect (n : UInt8) (r : Reg) : mode (Instr.indirect n r) = 2 := by
  apply UInt8.toBitVec_inj.mp
  apply BitVec.eq_of_getLsbD_eq
  intro i hi
  interval_cases i <;> simp [mode, Instr.indirect, Reg.low]

theorem upper_direct (n : UInt8) (r : Reg) : upper (Instr.direct n r) = n &&& 7 := by
  apply UInt8.toBitVec_inj.mp
  apply BitVec.eq_of_getLsbD_eq
  intro i hi
  interval_cases i <;> simp [upper, Instr.direct, Reg.low]

theorem upper_indirect (n : UInt8) (r : Reg) : upper (Instr.indirect n r) = n &&& 7 := by
  apply UInt8.toBitVec_inj.mp
  apply BitVec.eq_of_getLsbD_eq
  intro i hi
  interval_cases i <;> simp [upper, Instr.indirect, Reg.low]

theorem lower_direct (n : UInt8) (r : Reg) : lower (Instr.direct n r) = ⟨r.low⟩ := by
  rw [lower, Reg.mk.injEq]
  apply UInt8.toBitVec_inj.mp
  apply BitVec.eq_of_getLsbD_eq
  intro i hi
  interval_cases i <;> simp [Instr.direct, Reg.low]

theorem lower_indirect (n : UInt8) (r : Reg) : lower (Instr.indirect n r) = ⟨r.low⟩ := by
  rw [lower, Reg.mk.injEq]
  apply UInt8.toBitVec_inj.mp
  apply BitVec.eq_of_getLsbD_eq
  intro i hi
  interval_cases i <;> simp [Instr.indirect, Reg.low]

end Decode

theorem and_seven {n : UInt8} (h : n < 8) : n &&& 7 = n := by
  have h' : n.toNat < 8 := h
  apply UInt8.toNat_inj.mp
  rw [UInt8.toNat_and]
  exact (Nat.and_two_pow_sub_one_eq_mod n.toNat 3).trans (Nat.mod_eq_of_lt h')

namespace Reg

/-- Whether the register has an encoding of its own. -/
def Encodable (r : Reg) : Prop := r.number < 8

instance (r : Reg) : Decidable r.Encodable := inferInstanceAs (Decidable (_ < _))

theorem Encodable.low {r : Reg} (h : r.Encodable) : (⟨r.low⟩ : Reg) = r := by
  rw [Reg.low, and_seven h]

end Reg

namespace Decode

theorem direct_bytes {n : UInt8} {r : Reg} (hn : n < 8) (hr : r.Encodable) (rest : Bytes) :
    direct (Instr.direct n r :: rest) = .ok ((n, r), rest) := by
  simp only [direct, byte, bind, Except.bind, mode_direct, upper_direct, lower_direct, and_seven hn, hr.low, if_true]
  rfl

theorem memory_bytes {n : UInt8} {r : Reg} (hn : n < 8) (hr : r.Encodable) (hs : r ≠ .rsp) (d : Int32)
    (rest : Bytes) :
    memory (Instr.indirect n r :: (Instr.field d ++ rest)) = .ok ((n, r, d), rest) := by
  simp only [memory, byte, bind, Except.bind, mode_indirect, upper_indirect, lower_indirect, and_seven hn, hr.low,
    field_le32, ne_eq, hs, not_false_eq_true, and_self, if_true]
  rfl

theorem startsDirect_direct (n : UInt8) (r : Reg) (rest : Bytes) :
    startsDirect (Instr.direct n r :: rest) = true := by
  simp [startsDirect, mode_direct]

theorem startsDirect_indirect (n : UInt8) (r : Reg) (rest : Bytes) :
    startsDirect (Instr.indirect n r :: rest) = false := by
  simp [startsDirect, mode_indirect]

end Decode

/-! ### Instructions -/

namespace Instr

/-- Whether the bytes of the instruction stand for it and for no other: its registers have an encoding of their own,
its condition has one, and the stack pointer is not the base of a memory operand. -/
def Encodable : Instr → Prop
  | push r | pop r | idiv r | neg r | movImm r _ | movAbs r _ | addImm r _ | subImm r _ | cmpImm r _ => r.Encodable
  | movReg d r | movzx d r | add d r | sub d r | imul d r | xor32 d r | test d r | cmp d r =>
      d.Encodable ∧ r.Encodable
  | load d b _ => d.Encodable ∧ b.Encodable ∧ b ≠ .rsp
  | store b _ r => r.Encodable ∧ b.Encodable ∧ b ≠ .rsp
  | storeImm b _ _ => b.Encodable ∧ b ≠ .rsp
  | setcc c r => c.number < 16 ∧ r.Encodable
  | jcc c _ => c.number < 16
  | cqo | jmp _ | ret => True

instance : DecidablePred Encodable
  | push r | pop r | idiv r | neg r | movImm r _ | movAbs r _ | addImm r _ | subImm r _ | cmpImm r _ =>
      inferInstanceAs (Decidable r.Encodable)
  | movReg d r | movzx d r | add d r | sub d r | imul d r | xor32 d r | test d r | cmp d r =>
      inferInstanceAs (Decidable (d.Encodable ∧ r.Encodable))
  | load d b _ => inferInstanceAs (Decidable (d.Encodable ∧ b.Encodable ∧ b ≠ .rsp))
  | store b _ r => inferInstanceAs (Decidable (r.Encodable ∧ b.Encodable ∧ b ≠ .rsp))
  | storeImm b _ _ => inferInstanceAs (Decidable (b.Encodable ∧ b ≠ .rsp))
  | setcc c r => inferInstanceAs (Decidable (c.number < 16 ∧ r.Encodable))
  | jcc c _ => inferInstanceAs (Decidable (c.number < 16))
  | cqo | jmp _ | ret => inferInstanceAs (Decidable True)

/-- A constant is moved by the 32-bit form if that form extends to it, and else as a whole. -/
theorem mov_cases (d : Reg) (v : Int64) :
    (mov d v = .movImm d v.toInt32 ∧ v.toInt32.toInt64 = v) ∨ mov d v = .movAbs d v := by
  unfold mov
  split_ifs with h
  · refine .inl ⟨rfl, ?_⟩
    rw [Int64.le_iff_toInt_le, Int64.le_iff_toInt_le, Int32.toInt_toInt64, Int32.toInt_toInt64,
      Int32.toInt_minValue, Int32.toInt_maxValue] at h
    apply Int64.toInt_inj.mp
    rw [Int32.toInt_toInt64, Int64.toInt_toInt32]
    apply Int.bmod_eq_of_le <;> omega
  · exact .inr rfl

theorem encodable_mov {r : Reg} (h : r.Encodable) (v : Int64) : (mov r v).Encodable := by
  rcases mov_cases r v with ⟨hmov, -⟩ | hmov
  · rw [hmov]
    exact h
  · rw [hmov]
    exact h

theorem decode_wide (bs : Bytes) : decode (wide :: bs) = Decode.wide bs := by
  simp [decode, Decode.byte, bind, Except.bind, wide]

theorem decode_second (bs : Bytes) : decode (0x0F :: bs) = Decode.second bs := by
  simp [decode, Decode.byte, bind, Except.bind]

theorem opcode_range {base last n : UInt8} (h : base.toNat + n.toNat ≤ last.toNat) :
    base ≤ base + n ∧ base + n ≤ last := by
  have := last.toNat_lt
  simp only [UInt8.le_iff_toNat_le, UInt8.toNat_add]
  omega

theorem opcode_beyond {base first last n : UInt8} (h : base.toNat + n.toNat < 256) (hl : last < base) :
    ¬ (first ≤ base + n ∧ base + n ≤ last) := by
  simp only [UInt8.le_iff_toNat_le, UInt8.lt_iff_toNat_lt, UInt8.toNat_add] at hl ⊢
  omega

theorem opcode_sub (base n : UInt8) : base + n - base = n := by
  rw [UInt8.add_comm, UInt8.add_sub_cancel]

theorem decode_push {r : Reg} (h : r.Encodable) (rest : Bytes) :
    decode ((push r).encode ++ rest) = .ok (push r, rest) := by
  have hn : r.number.toNat < 8 := h
  have h1 : (0x50 : UInt8) ≤ 0x50 + r.number ∧ 0x50 + r.number ≤ 0x57 :=
    opcode_range (by simp only [UInt8.reduceToNat]; omega)
  simp only [encode, decode, Decode.byte, bind, Except.bind, List.cons_append, List.nil_append, if_pos h1, opcode_sub]
  rfl

theorem decode_pop {r : Reg} (h : r.Encodable) (rest : Bytes) :
    decode ((pop r).encode ++ rest) = .ok (pop r, rest) := by
  have hn : r.number.toNat < 8 := h
  have h1 : (0x58 : UInt8) ≤ 0x58 + r.number ∧ 0x58 + r.number ≤ 0x5F :=
    opcode_range (by simp only [UInt8.reduceToNat]; omega)
  have h2 : ¬ ((0x50 : UInt8) ≤ 0x58 + r.number ∧ 0x58 + r.number ≤ 0x57) :=
    opcode_beyond (by simp only [UInt8.reduceToNat]; omega) (by decide)
  simp only [encode, decode, Decode.byte, bind, Except.bind, List.cons_append, List.nil_append, if_pos h1, if_neg h2,
    opcode_sub]
  rfl

theorem decode_movAbs {r : Reg} (h : r.Encodable) (v : Int64) (rest : Bytes) :
    decode ((movAbs r v).encode ++ rest) = .ok (movAbs r v, rest) := by
  have hn : r.number.toNat < 8 := h
  have h1 : (0xB8 : UInt8) ≤ 0xB8 + r.number ∧ 0xB8 + r.number ≤ 0xBF :=
    opcode_range (by simp only [UInt8.reduceToNat]; omega)
  simp only [encode, List.cons_append, decode_wide, Decode.wide, Decode.byte, bind, Except.bind, if_pos h1,
    Decode.wideField_le64, opcode_sub]
  rfl

theorem decode_jcc {c : Cond} (h : c.number < 16) (d : Int32) (rest : Bytes) :
    decode ((jcc c d).encode ++ rest) = .ok (jcc c d, rest) := by
  have hn : c.number.toNat < 16 := h
  have h1 : (0x80 : UInt8) ≤ 0x80 + c.number ∧ 0x80 + c.number ≤ 0x8F :=
    opcode_range (by simp only [UInt8.reduceToNat]; omega)
  simp only [encode, List.cons_append, decode_second, Decode.second, Decode.byte, bind, Except.bind, if_pos h1,
    Decode.field_le32, opcode_sub]
  rfl

theorem decode_setcc {c : Cond} {r : Reg} (h : c.number < 16) (hr : r.Encodable) (rest : Bytes) :
    decode ((setcc c r).encode ++ rest) = .ok (setcc c r, rest) := by
  have hn : c.number.toNat < 16 := h
  have h1 : (0x90 : UInt8) ≤ 0x90 + c.number ∧ 0x90 + c.number ≤ 0x9F :=
    opcode_range (by simp only [UInt8.reduceToNat]; omega)
  have h2 : ¬ ((0x80 : UInt8) ≤ 0x90 + c.number ∧ 0x90 + c.number ≤ 0x8F) :=
    opcode_beyond (by simp only [UInt8.reduceToNat]; omega) (by decide)
  simp only [encode, List.cons_append, List.nil_append, decode_second, Decode.second, Decode.byte, bind, Except.bind,
    if_pos h1, if_neg h2, Decode.direct_bytes (show (0 : UInt8) < 8 by decide) hr, opcode_sub]
  rfl

/-- An instruction is read back from its bytes. -/
theorem decode_encode {i : Instr} (h : i.Encodable) (rest : Bytes) : decode (i.encode ++ rest) = .ok (i, rest) := by
  have h0 : (0 : UInt8) < 8 := by decide
  have h3 : (3 : UInt8) < 8 := by decide
  have h5 : (5 : UInt8) < 8 := by decide
  have h7 : (7 : UInt8) < 8 := by decide
  cases i with
  | push r => exact decode_push h rest
  | pop r => exact decode_pop h rest
  | movAbs d v => exact decode_movAbs h v rest
  | jcc c d => exact decode_jcc h d rest
  | setcc c r => exact decode_setcc h.1 h.2 rest
  | movReg d r =>
      simp only [encode, List.cons_append, List.nil_append, decode_wide]
      simp [Decode.wide, Decode.byte, bind, Except.bind, Decode.moveFrom, Decode.startsDirect_direct,
        Decode.direct_bytes h.2 h.1]
      rfl
  | store b o r =>
      simp only [encode, List.cons_append, decode_wide]
      simp [Decode.wide, Decode.byte, bind, Except.bind, Decode.moveFrom, Decode.startsDirect_indirect,
        Decode.memory_bytes h.1 h.2.1 h.2.2]
      rfl
  | movImm r v =>
      simp only [encode, List.cons_append, decode_wide]
      simp [Decode.wide, Decode.byte, bind, Except.bind, Decode.moveImm, Decode.startsDirect_direct,
        Decode.direct_bytes h0 h, Decode.field_le32]
      rfl
  | storeImm b o v =>
      simp only [encode, List.cons_append, List.append_assoc, decode_wide]
      simp [Decode.wide, Decode.byte, bind, Except.bind, Decode.moveImm, Decode.startsDirect_indirect,
        Decode.memory_bytes h0 h.1 h.2, Decode.field_le32]
      rfl
  | load d b o =>
      simp only [encode, List.cons_append, decode_wide]
      simp [Decode.wide, Decode.byte, bind, Except.bind, Decode.memory_bytes h.1 h.2.1 h.2.2]
      rfl
  | movzx d r =>
      simp only [encode, List.cons_append, List.nil_append, decode_second]
      simp [Decode.second, Decode.byte, bind, Except.bind, Decode.direct_bytes h.1 h.2]
      rfl
  | add d r | sub d r | test d r | cmp d r =>
      simp only [encode, List.cons_append, List.nil_append, decode_wide]
      simp [Decode.wide, Decode.byte, bind, Except.bind, Decode.arithmetic, Decode.pair, Decode.direct_bytes h.2 h.1]
      rfl
  | imul d r =>
      simp only [encode, List.cons_append, List.nil_append, decode_wide]
      simp [Decode.wide, Decode.byte, bind, Except.bind, Decode.product, Decode.direct_bytes h.1 h.2]
      rfl
  | cqo => rfl
  | idiv r =>
      simp only [encode, List.cons_append, List.nil_append, decode_wide]
      simp [Decode.wide, Decode.byte, bind, Except.bind, Decode.divideOrNegate, Decode.direct_bytes h7 h]
      rfl
  | neg r =>
      simp only [encode, List.cons_append, List.nil_append, decode_wide]
      simp [Decode.wide, Decode.byte, bind, Except.bind, Decode.divideOrNegate, Decode.direct_bytes h3 h]
      rfl
  | xor32 d r =>
      simp only [encode, List.cons_append, List.nil_append]
      simp [decode, Decode.byte, bind, Except.bind, Decode.pair, Decode.direct_bytes h.2 h.1]
      rfl
  | addImm r v =>
      simp only [encode, List.cons_append, decode_wide]
      simp [Decode.wide, Decode.byte, bind, Except.bind, Decode.adjust, Decode.direct_bytes h0 h, Decode.field_le32]
      rfl
  | subImm r v =>
      simp only [encode, List.cons_append, decode_wide]
      simp [Decode.wide, Decode.byte, bind, Except.bind, Decode.adjust, Decode.direct_bytes h5 h, Decode.field_le32]
      rfl
  | cmpImm r v =>
      simp only [encode, List.cons_append, List.nil_append, decode_wide]
      simp [Decode.wide, Decode.byte, bind, Except.bind, Decode.compareImm, Decode.direct_bytes h7 h]
      rfl
  | jmp d =>
      simp only [encode, List.cons_append]
      simp [decode, Decode.byte, bind, Except.bind, Decode.field_le32]
      rfl
  | ret => rfl

theorem encode_ne_nil (i : Instr) : i.encode ≠ [] := by
  cases i <;> simp [encode]

theorem size_pos (i : Instr) : 0 < i.size := List.length_pos_iff.mpr i.encode_ne_nil

end Instr

/-! ### Sequences of instructions -/

@[simp] theorem encodeAll_cons (i : Instr) (is : List Instr) : encodeAll (i :: is) = i.encode ++ encodeAll is := rfl

@[simp] theorem encodeAll_append (is js : List Instr) : encodeAll (is ++ js) = encodeAll is ++ encodeAll js := by
  simp [encodeAll]

@[simp] theorem length_encodeAll (is : List Instr) : (encodeAll is).length = sizeAll is := by
  induction is with
  | nil => rfl
  | cons i is ih => rw [encodeAll_cons, List.length_append, ih, sizeAll, Instr.size]

theorem sizeAll_append (is js : List Instr) : sizeAll (is ++ js) = sizeAll is + sizeAll js := by
  rw [← length_encodeAll, encodeAll_append, List.length_append, length_encodeAll, length_encodeAll]

theorem length_le_length_encodeAll (is : List Instr) : is.length ≤ (encodeAll is).length := by
  induction is with
  | nil => exact Nat.le_refl _
  | cons i is ih =>
      have hpos := List.length_pos_iff.mpr (Instr.encode_ne_nil i)
      rw [encodeAll_cons, List.length_append, List.length_cons]
      omega

/-- Instructions with their offsets, the first one at a given offset. -/
def placedFrom (offset : Nat) : List Instr → List Placed
  | [] => []
  | i :: is => ⟨offset, i⟩ :: placedFrom (offset + i.size) is

@[simp] theorem length_placedFrom (offset : Nat) (is : List Instr) : (placedFrom offset is).length = is.length := by
  induction is generalizing offset with
  | nil => rfl
  | cons i is ih => simp [placedFrom, ih]

theorem placedFrom_append (offset : Nat) (is js : List Instr) :
    placedFrom offset (is ++ js) = placedFrom offset is ++ placedFrom (offset + sizeAll is) js := by
  induction is generalizing offset with
  | nil => rfl
  | cons i is ih => rw [List.cons_append, placedFrom, ih, placedFrom, sizeAll, Nat.add_assoc, List.cons_append]

section
variable {offset : Nat} {is : List Instr} {p : Placed}

theorem instr_mem_of_mem_placedFrom (h : p ∈ placedFrom offset is) : p.instr ∈ is := by
  induction is generalizing offset with
  | nil => cases h
  | cons i is ih =>
      rcases List.mem_cons.mp h with rfl | h
      · exact List.mem_cons_self
      · exact List.mem_cons_of_mem _ (ih h)

theorem le_of_mem_placedFrom (h : p ∈ placedFrom offset is) : offset ≤ p.offset := by
  induction is generalizing offset with
  | nil => cases h
  | cons i is ih =>
      rcases List.mem_cons.mp h with rfl | h
      · exact Nat.le_refl _
      · have := ih h
        omega

theorem stop_le_of_mem_placedFrom (h : p ∈ placedFrom offset is) : p.stop ≤ offset + sizeAll is := by
  induction is generalizing offset with
  | nil => cases h
  | cons i is ih =>
      rw [sizeAll]
      rcases List.mem_cons.mp h with rfl | h
      · change offset + i.size ≤ offset + (i.size + sizeAll is)
        omega
      · have hstop := ih h
        omega

end

theorem decodeFrom_encodeAll {is : List Instr} (h : ∀ i ∈ is, i.Encodable) (offset : Nat) :
    decodeFrom offset (encodeAll is) = .ok (placedFrom offset is) := by
  induction is generalizing offset with
  | nil => simp [encodeAll, decodeFrom, placedFrom]
  | cons i is ih =>
      have hd := Instr.decode_encode (h i (by simp)) (encodeAll is)
      have hrest := ih (fun j hj => h j (by simp [hj])) (offset + i.size)
      rw [encodeAll_cons]
      cases hb : i.encode with
      | nil => exact absurd hb (Instr.encode_ne_nil i)
      | cons b bs =>
          rw [hb] at hd
          rw [List.cons_append] at hd ⊢
          rw [decodeFrom]
          split
          · rename_i f hf
            rw [hd] at hf
            cases hf
          · rename_i j tail hf
            rw [hd] at hf
            obtain ⟨rfl, rfl⟩ := Prod.mk.inj (Except.ok.inj hf)
            rw [hrest]
            rfl

theorem decodeAll_encodeAll {is : List Instr} (h : ∀ i ∈ is, i.Encodable) :
    decodeAll (encodeAll is) = .ok (placedFrom 0 is) := decodeFrom_encodeAll h 0

end TierCalc.X64
