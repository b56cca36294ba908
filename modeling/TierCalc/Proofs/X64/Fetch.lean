import Mathlib.Tactic.Common
import TierCalc.X64.Machine

/-!
# Fetching what was decoded

Decoding an instruction takes as many bytes as the instruction has (`Instr.drop_of_decode`), also where the bytes are
not the ones that it would be encoded by. So a byte string that can be split into instructions holds them, as a
program, at their offsets (`Program.fetch?_of_decodeAll`).
-/

namespace TierCalc.X64

/-! ### What decoding takes -/

/-- The number of bytes of an instruction by its form. -/
def Instr.width : Instr → Nat
  | push _ | pop _ | ret => 1
  | cqo | xor32 _ _ => 2
  | movReg _ _ | add _ _ | sub _ _ | idiv _ | neg _ | test _ _ | cmp _ _ | setcc _ _ | movzx _ _ => 3
  | imul _ _ | cmpImm _ _ => 4
  | jmp _ => 5
  | jcc _ _ => 6
  | load _ _ _ | store _ _ _ | movImm _ _ | addImm _ _ | subImm _ _ => 7
  | movAbs _ _ => 10
  | storeImm _ _ _ => 11

theorem Instr.size_eq_width (i : Instr) : i.size = i.width := by
  cases i <;> rfl

namespace Decode

section
variable {bs rest : Bytes} {i : Instr}

theorem drop_of_byte {b : UInt8} (h : byte bs = .ok (b, rest)) : rest = bs.drop 1 := by
  cases bs <;> simp_all [byte]

theorem drop_of_field {v : Int32} (h : field bs = .ok (v, rest)) : rest = bs.drop 4 := by
  unfold field at h
  split at h <;> simp_all

theorem drop_of_wideField {v : Int64} (h : wideField bs = .ok (v, rest)) : rest = bs.drop 8 := by
  unfold wideField at h
  split at h <;> simp_all

theorem drop_of_direct {v : UInt8 × Reg} (h : direct bs = .ok (v, rest)) : rest = bs.drop 1 := by
  grind [direct, → ok_of_bind, → drop_of_byte, pure_ok, throw_error]

theorem drop_of_memory {v : UInt8 × Reg × Int32} (h : memory bs = .ok (v, rest)) : rest = bs.drop 5 := by
  grind [memory, → ok_of_bind, → drop_of_byte, → drop_of_field, pure_ok, throw_error, List.drop_drop]

theorem drop_of_second (h : second bs = .ok (i, rest)) : 1 < i.width ∧ rest = bs.drop (i.width - 1) := by
  grind [second, → ok_of_bind, → drop_of_byte, → drop_of_field, → drop_of_direct, pure_ok, throw_error, Instr.width,
    List.drop_drop]

theorem drop_of_moveFrom (h : moveFrom bs = .ok (i, rest)) : 1 < i.width ∧ rest = bs.drop (i.width - 2) := by
  grind [moveFrom, → ok_of_bind, → drop_of_direct, → drop_of_memory, pure_ok, throw_error, Instr.width]

theorem drop_of_moveImm (h : moveImm bs = .ok (i, rest)) : 1 < i.width ∧ rest = bs.drop (i.width - 2) := by
  grind [moveImm, → ok_of_bind, → drop_of_direct, → drop_of_memory, → drop_of_field, pure_ok, throw_error, Instr.width,
    List.drop_drop]

theorem drop_of_pair {make : Reg → Reg → Instr} (h : pair make bs = .ok (i, rest)) :
    rest = bs.drop 1 ∧ ∃ d s, i = make d s := by
  grind [pair, → ok_of_bind, → drop_of_direct, pure_ok]

theorem drop_of_arithmetic {b : UInt8} (h : arithmetic b bs = .ok (i, rest)) :
    1 < i.width ∧ rest = bs.drop (i.width - 2) := by
  grind [arithmetic, → drop_of_pair, throw_error, Instr.width]

theorem drop_of_product (h : product bs = .ok (i, rest)) : 1 < i.width ∧ rest = bs.drop (i.width - 2) := by
  grind [product, → ok_of_bind, → drop_of_byte, → drop_of_direct, pure_ok, throw_error, Instr.width, List.drop_drop]

theorem drop_of_divideOrNegate (h : divideOrNegate bs = .ok (i, rest)) :
    1 < i.width ∧ rest = bs.drop (i.width - 2) := by
  grind [divideOrNegate, → ok_of_bind, → drop_of_direct, pure_ok, throw_error, Instr.width]

theorem drop_of_adjust (h : adjust bs = .ok (i, rest)) : 1 < i.width ∧ rest = bs.drop (i.width - 2) := by
  grind [adjust, → ok_of_bind, → drop_of_direct, → drop_of_field, pure_ok, throw_error, Instr.width, List.drop_drop]

theorem drop_of_compareImm (h : compareImm bs = .ok (i, rest)) : 1 < i.width ∧ rest = bs.drop (i.width - 2) := by
  grind [compareImm, → ok_of_bind, → drop_of_byte, → drop_of_direct, pure_ok, throw_error, Instr.width, List.drop_drop]

theorem drop_of_wide (h : wide bs = .ok (i, rest)) : 1 < i.width ∧ rest = bs.drop (i.width - 1) := by
  obtain ⟨⟨b, tail⟩, hb, h⟩ := ok_of_bind h
  have htail : 1 < i.width ∧ rest = tail.drop (i.width - 2) := by
    dsimp only at h
    split_ifs at h
    · obtain ⟨⟨imm, tail'⟩, hfield, h⟩ := ok_of_bind h
      cases h
      exact ⟨by simp [Instr.width], drop_of_wideField hfield⟩
    · cases h
      exact ⟨by simp [Instr.width], rfl⟩
    · exact drop_of_product h
    · exact drop_of_moveFrom h
    · obtain ⟨⟨⟨d, base, disp⟩, tail'⟩, hmemory, h⟩ := ok_of_bind h
      cases h
      exact ⟨by simp [Instr.width], drop_of_memory hmemory⟩
    · exact drop_of_moveImm h
    · exact drop_of_divideOrNegate h
    · exact drop_of_adjust h
    · exact drop_of_compareImm h
    · exact drop_of_arithmetic h
  refine ⟨htail.1, ?_⟩
  rw [htail.2, drop_of_byte hb, List.drop_drop]
  congr 1
  omega

end

end Decode

theorem Instr.drop_of_decode {bs rest : Bytes} {i : Instr} (h : Instr.decode bs = .ok (i, rest)) :
    rest = bs.drop i.size := by
  obtain ⟨⟨b, tail⟩, hb, h⟩ := ok_of_bind h
  have htail : 0 < i.width ∧ rest = tail.drop (i.width - 1) := by
    dsimp only at h
    split_ifs at h
    · cases h
      exact ⟨by simp [width], rfl⟩
    · cases h
      exact ⟨by simp [width], rfl⟩
    · cases h
      exact ⟨by simp [width], rfl⟩
    · obtain ⟨⟨d, tail'⟩, hfield, h⟩ := ok_of_bind h
      cases h
      exact ⟨by simp [width], Decode.drop_of_field hfield⟩
    · obtain ⟨hrest, d, s, rfl⟩ := Decode.drop_of_pair h
      exact ⟨by simp [width], hrest⟩
    · obtain ⟨hwidth, hrest⟩ := Decode.drop_of_second h
      exact ⟨by omega, hrest⟩
    · obtain ⟨hwidth, hrest⟩ := Decode.drop_of_wide h
      exact ⟨by omega, hrest⟩
  rw [size_eq_width, htail.2, Decode.drop_of_byte hb, List.drop_drop]
  congr 1
  omega

/-! ### Programs -/

/-- Each instruction of a byte string is what the bytes from its offset on start with. -/
theorem first?_of_decodeFrom {bs : Bytes} {offset : Nat} {placed : List Placed}
    (h : decodeFrom offset bs = .ok placed) {p : Placed} (hp : p ∈ placed) :
    ∃ n, p.offset = offset + n ∧ first? (bs.drop n) = some (p.instr, p.instr.size) := by
  fun_induction decodeFrom offset bs generalizing placed with
  | case1 =>
      cases h
      cases hp
  | case2 => cases h
  | case3 offset b rest i tail hdecode ih =>
      cases hrest : decodeFrom (offset + i.size) tail with
      | error e =>
          rw [hrest] at h
          cases h
      | ok ps =>
          rw [hrest] at h
          cases h
          rcases List.mem_cons.mp hp with rfl | hp
          · exact ⟨0, rfl, by simp [first?, hdecode]⟩
          · obtain ⟨n, hn, hfirst⟩ := ih hrest hp
            refine ⟨i.size + n, by omega, ?_⟩
            rw [← List.drop_drop, ← Instr.drop_of_decode hdecode]
            exact hfirst

theorem Program.fetch?_of_decodeAll {code : Bytes} {placed : List Placed} (h : decodeAll code = .ok placed) {p : Placed}
    (hp : p ∈ placed) : (ofBytes code).fetch? p.offset = some (p.instr, p.instr.size) := by
  obtain ⟨n, hn, hfirst⟩ := first?_of_decodeFrom h hp
  rw [fetch?_ofBytes, if_neg (by omega)]
  simpa [hn] using hfirst

end TierCalc.X64
