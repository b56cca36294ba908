import TierCalc.Proofs.X64.Assembler

/-!
# Assembling what was decoded

Code that can be split into instructions is taken apart and assembled again.

* Each reader says what it has read (`Decode.eq_of_field`, `Decode.eq_of_wide`, ...): the bytes are the encoding of the
  instruction. The exception is the conditional set, whose register byte has a field that is not looked at. A `Form` is
  an instruction with what stands in that field, so code is a sequence of forms (`forms_of_decodeFrom`).
* `Placed.again` is what an assembler appends for a decoded instruction. It writes constants in the shorter of their two
  encodings, so it never writes more bytes than were read (`Form.length_encode_shortest_le`). It writes the same bytes
  for a whole piece of code exactly if it does so for each instruction (`reassemble_of_decodeAll`).
-/

namespace TierCalc.X64

/-! ### Fields -/

theorem le32_word32 (a b c d : UInt8) : Bytes.le32 (Bytes.word32 a b c d) = [a, b, c, d] := by
  simp only [Bytes.le32, Bytes.word32, List.cons.injEq, and_true]
  refine ⟨?_, ?_, ?_, ?_⟩
  all_goals
    apply UInt8.toBitVec_inj.mp
    apply BitVec.eq_of_getLsbD_eq
    intro i hi
    interval_cases i <;> simp

theorem low_word64 (low high : UInt32) : (Bytes.word64 low high).toUInt32 = low := by
  apply UInt32.toBitVec_inj.mp
  apply BitVec.eq_of_getLsbD_eq
  intro i hi
  simp [Bytes.word64, hi]

theorem high_word64 (low high : UInt32) : (Bytes.word64 low high >>> 32).toUInt32 = high := by
  apply UInt32.toBitVec_inj.mp
  apply BitVec.eq_of_getLsbD_eq
  intro i hi
  simp [Bytes.word64, hi, show 32 + i < 64 by omega]

theorem and_seven_lt (b : UInt8) : b &&& 7 < 8 := by
  rw [UInt8.lt_iff_toNat_lt, UInt8.toNat_and]
  exact Nat.lt_succ_of_le Nat.and_le_right

namespace Decode

variable {bs rest : Bytes} {i : Instr}

theorem eq_of_byte {b : UInt8} (h : byte bs = .ok (b, rest)) : bs = b :: rest := by
  unfold byte at h
  split at h
  · cases h
    rfl
  · cases h

theorem eq_of_field {v : Int32} (h : field bs = .ok (v, rest)) : bs = Instr.field v ++ rest := by
  unfold field at h
  split at h
  · cases h
    exact congrArg (· ++ _) (le32_word32 _ _ _ _).symm
  · cases h

theorem eq_of_wideField {v : Int64} (h : wideField bs = .ok (v, rest)) : bs = Bytes.le64 v.toUInt64 ++ rest := by
  unfold wideField at h
  split at h
  · cases h
    rw [le64_eq]
    simp only [UInt64.toUInt64_toInt64, low_word64, high_word64, le32_word32, List.cons_append, List.nil_append]
  · cases h

/-! ### Register bytes -/

theorem lower_encodable (b : UInt8) : (lower b).Encodable := and_seven_lt b

theorem upper_lt (b : UInt8) : upper b < 8 := and_seven_lt (b >>> 3)

theorem register_byte (b : UInt8) : mode b <<< 6 ||| (upper b &&& 7) <<< 3 ||| (lower b).low = b := by
  apply UInt8.toBitVec_inj.mp
  apply BitVec.eq_of_getLsbD_eq
  intro i hi
  interval_cases i <;> simp [mode, upper, lower, Reg.low]

theorem direct_of_mode {b : UInt8} (h : mode b = 3) : Instr.direct (upper b) (lower b) = b := by
  have hb := register_byte b
  rw [h] at hb
  exact hb

theorem indirect_of_mode {b : UInt8} (h : mode b = 2) : Instr.indirect (upper b) (lower b) = b := by
  have hb := register_byte b
  rw [h] at hb
  exact hb

theorem eq_of_direct {n : UInt8} {r : Reg} (h : direct bs = .ok ((n, r), rest)) :
    n < 8 ∧ r.Encodable ∧ bs = Instr.direct n r :: rest := by
  obtain ⟨⟨b, tail⟩, hb, h⟩ := ok_of_bind h
  dsimp only at h
  split_ifs at h with hmode
  · cases h
    exact ⟨upper_lt b, lower_encodable b, by rw [direct_of_mode hmode]; exact eq_of_byte hb⟩

theorem eq_of_memory {n : UInt8} {r : Reg} {d : Int32} (h : memory bs = .ok ((n, r, d), rest)) :
    n < 8 ∧ r.Encodable ∧ r ≠ .rsp ∧ bs = Instr.indirect n r :: (Instr.field d ++ rest) := by
  obtain ⟨⟨b, tail⟩, hb, h⟩ := ok_of_bind h
  dsimp only at h
  split_ifs at h with hmode
  · obtain ⟨⟨v, last⟩, hv, h⟩ := ok_of_bind h
    cases h
    refine ⟨upper_lt b, lower_encodable b, hmode.2, ?_⟩
    rw [indirect_of_mode hmode.1, ← eq_of_field hv]
    exact eq_of_byte hb

/-! ### Instructions -/

theorem opcode_of_range {base last b : UInt8} (h : base ≤ b ∧ b ≤ last) :
    base + (b - base) = b ∧ b - base ≤ last - base := by
  have h1 := UInt8.le_iff_toNat_le.mp h.1
  have h2 := UInt8.le_iff_toNat_le.mp h.2
  have h3 : base ≤ last := UInt8.le_iff_toNat_le.mpr (Nat.le_trans h1 h2)
  refine ⟨?_, ?_⟩
  · rw [UInt8.add_comm, UInt8.sub_add_cancel]
  · rw [UInt8.le_iff_toNat_le, UInt8.toNat_sub_of_le _ _ h.1, UInt8.toNat_sub_of_le _ _ h3]
    omega

theorem eq_of_moveFrom (h : moveFrom bs = .ok (i, rest)) :
    i.Encodable ∧ Instr.wide :: 0x89 :: bs = i.encode ++ rest := by
  unfold moveFrom at h
  split_ifs at h
  · obtain ⟨⟨⟨n, r⟩, tail⟩, hd, h⟩ := ok_of_bind h
    cases h
    obtain ⟨hn, hr, rfl⟩ := eq_of_direct hd
    exact ⟨⟨hr, hn⟩, rfl⟩
  · obtain ⟨⟨⟨n, r, d⟩, tail⟩, hm, h⟩ := ok_of_bind h
    cases h
    obtain ⟨hn, hr, hs, rfl⟩ := eq_of_memory hm
    exact ⟨⟨hn, hr, hs⟩, rfl⟩

theorem eq_of_moveImm (h : moveImm bs = .ok (i, rest)) :
    i.Encodable ∧ Instr.wide :: 0xC7 :: bs = i.encode ++ rest := by
  grind [moveImm, → ok_of_bind, → eq_of_direct, → eq_of_memory, → eq_of_field, pure_ok, throw_error, Instr.Encodable,
    Instr.encode]

theorem eq_of_pair {make : Reg → Reg → Instr} (h : pair make bs = .ok (i, rest)) :
    ∃ d s : Reg, d.Encodable ∧ s.Encodable ∧ i = make d s ∧ bs = Instr.direct s.number d :: rest := by
  obtain ⟨⟨⟨n, r⟩, tail⟩, hd, h⟩ := ok_of_bind h
  cases h
  obtain ⟨hn, hr, rfl⟩ := eq_of_direct hd
  exact ⟨r, ⟨n⟩, hr, hn, rfl, rfl⟩

theorem eq_of_arithmetic {b : UInt8} (h : arithmetic b bs = .ok (i, rest)) :
    i.Encodable ∧ Instr.wide :: b :: bs = i.encode ++ rest := by
  grind [arithmetic, → eq_of_pair, throw_error, Instr.Encodable, Instr.encode]

theorem eq_of_product (h : product bs = .ok (i, rest)) :
    i.Encodable ∧ Instr.wide :: 0x0F :: bs = i.encode ++ rest := by
  grind [product, → ok_of_bind, → eq_of_byte, → eq_of_direct, pure_ok, throw_error, Instr.Encodable, Reg.Encodable,
    Instr.encode]

theorem eq_of_divideOrNegate (h : divideOrNegate bs = .ok (i, rest)) :
    i.Encodable ∧ Instr.wide :: 0xF7 :: bs = i.encode ++ rest := by
  grind [divideOrNegate, → ok_of_bind, → eq_of_direct, pure_ok, throw_error, Instr.Encodable, Instr.encode]

theorem eq_of_adjust (h : adjust bs = .ok (i, rest)) :
    i.Encodable ∧ Instr.wide :: 0x81 :: bs = i.encode ++ rest := by
  grind [adjust, → ok_of_bind, → eq_of_direct, → eq_of_field, pure_ok, throw_error, Instr.Encodable, Instr.encode]

theorem eq_of_compareImm (h : compareImm bs = .ok (i, rest)) :
    i.Encodable ∧ Instr.wide :: 0x83 :: bs = i.encode ++ rest := by
  grind [compareImm, → ok_of_bind, → eq_of_direct, → eq_of_byte, pure_ok, throw_error, Instr.Encodable, Instr.encode,
    UInt8.toUInt8_toInt8]

theorem eq_of_movAbs {b : UInt8} (hb : 0xB8 ≤ b ∧ b ≤ 0xBF) {v : Int64} (h : wideField bs = .ok (v, rest)) :
    (Instr.movAbs ⟨b - 0xB8⟩ v).Encodable ∧ Instr.wide :: b :: bs = (Instr.movAbs ⟨b - 0xB8⟩ v).encode ++ rest := by
  obtain ⟨hsum, hsmall⟩ := opcode_of_range hb
  refine ⟨UInt8.lt_of_le_of_lt hsmall (by decide), ?_⟩
  rw [eq_of_wideField h, Instr.encode, hsum]
  rfl

theorem eq_of_wide (h : wide bs = .ok (i, rest)) : i.Encodable ∧ Instr.wide :: bs = i.encode ++ rest := by
  obtain ⟨⟨b, tail⟩, hb, hread⟩ := ok_of_bind h
  clear h
  obtain rfl := eq_of_byte hb
  dsimp only at hread
  by_cases habs : 0xB8 ≤ b ∧ b ≤ 0xBF
  · rw [if_pos habs] at hread
    obtain ⟨⟨v, last⟩, hv, h⟩ := ok_of_bind hread
    cases h
    exact eq_of_movAbs habs hv
  rw [if_neg habs] at hread
  by_cases hcqo : b = 0x99
  · rw [if_pos hcqo] at hread
    cases hread
    exact ⟨trivial, by rw [hcqo]; rfl⟩
  rw [if_neg hcqo] at hread
  by_cases hproduct : b = 0x0F
  · rw [if_pos hproduct] at hread
    exact hproduct ▸ eq_of_product hread
  rw [if_neg hproduct] at hread
  by_cases hfrom : b = 0x89
  · rw [if_pos hfrom] at hread
    exact hfrom ▸ eq_of_moveFrom hread
  rw [if_neg hfrom] at hread
  by_cases hload : b = 0x8B
  · rw [if_pos hload] at hread
    obtain ⟨⟨⟨n, r, d⟩, last⟩, hm, h⟩ := ok_of_bind hread
    cases h
    obtain ⟨hn, hr, hs, rfl⟩ := eq_of_memory hm
    exact ⟨⟨hn, hr, hs⟩, by rw [hload]; rfl⟩
  rw [if_neg hload] at hread
  by_cases himm : b = 0xC7
  · rw [if_pos himm] at hread
    exact himm ▸ eq_of_moveImm hread
  rw [if_neg himm] at hread
  by_cases hdivide : b = 0xF7
  · rw [if_pos hdivide] at hread
    exact hdivide ▸ eq_of_divideOrNegate hread
  rw [if_neg hdivide] at hread
  by_cases hadjust : b = 0x81
  · rw [if_pos hadjust] at hread
    exact hadjust ▸ eq_of_adjust hread
  rw [if_neg hadjust] at hread
  by_cases hcompare : b = 0x83
  · rw [if_pos hcompare] at hread
    exact hcompare ▸ eq_of_compareImm hread
  rw [if_neg hcompare] at hread
  exact eq_of_arithmetic hread

end Decode

/-- A spelling of an instruction: the bytes of a conditional set have a register field that says nothing. -/
structure Form where
  instr : Instr
  spare : UInt8
  encodable : instr.Encodable
  spare_lt : spare < 8

namespace Form

def bytes (f : Form) : Bytes :=
  match f.instr with
  | .setcc c r => [0x0F, 0x90 + c.number, Instr.direct f.spare r]
  | i => i.encode

/-- The spelling with an empty register field. -/
def plain (i : Instr) (h : i.Encodable) : Form := ⟨i, 0, h, by decide⟩

theorem bytes_plain (i : Instr) (h : i.Encodable) : (plain i h).bytes = i.encode := by
  cases i <;> rfl

end Form

namespace Decode

variable {bs rest : Bytes} {i : Instr}

theorem form_of_second (h : second bs = .ok (i, rest)) : ∃ f : Form, f.instr = i ∧ 0x0F :: bs = f.bytes ++ rest := by
  obtain ⟨⟨b, tail⟩, hb, hread⟩ := ok_of_bind h
  clear h
  obtain rfl := eq_of_byte hb
  dsimp only at hread
  split_ifs at hread with hjump hset hzero
  · obtain ⟨⟨d, last⟩, hd, h⟩ := ok_of_bind hread
    cases h
    obtain ⟨hsum, hsmall⟩ := opcode_of_range hjump
    have hc : (Instr.jcc ⟨b - 0x80⟩ d).Encodable := UInt8.lt_of_le_of_lt hsmall (by decide)
    refine ⟨.plain _ hc, rfl, ?_⟩
    rw [Form.bytes_plain, Instr.encode, hsum, eq_of_field hd]
    rfl
  · obtain ⟨⟨⟨n, r⟩, last⟩, hd, h⟩ := ok_of_bind hread
    cases h
    obtain ⟨hn, hr, rfl⟩ := eq_of_direct hd
    obtain ⟨hsum, hsmall⟩ := opcode_of_range hset
    refine ⟨⟨.setcc ⟨b - 0x90⟩ r, n, ⟨UInt8.lt_of_le_of_lt hsmall (by decide), hr⟩, hn⟩, rfl, ?_⟩
    simp only [Form.bytes, hsum]
    rfl
  · obtain ⟨⟨⟨n, r⟩, last⟩, hd, h⟩ := ok_of_bind hread
    cases h
    obtain ⟨hn, hr, rfl⟩ := eq_of_direct hd
    exact ⟨.plain (.movzx ⟨n⟩ r) ⟨hn, hr⟩, rfl, by rw [hzero]; rfl⟩

end Decode

/-- What is read as an instruction is a spelling of it. -/
theorem Instr.form_of_decode {bs rest : Bytes} {i : Instr} (h : Instr.decode bs = .ok (i, rest)) :
    ∃ f : Form, f.instr = i ∧ bs = f.bytes ++ rest := by
  obtain ⟨⟨b, tail⟩, hb, hread⟩ := ok_of_bind h
  clear h
  obtain rfl := Decode.eq_of_byte hb
  dsimp only at hread
  split_ifs at hread with hpush hpop hret hjump hxor hsecond hwide
  · cases hread
    obtain ⟨hsum, hsmall⟩ := Decode.opcode_of_range hpush
    have hr : (Instr.push ⟨b - 0x50⟩).Encodable := UInt8.lt_of_le_of_lt hsmall (by decide)
    exact ⟨.plain _ hr, rfl, by rw [Form.bytes_plain, Instr.encode, hsum]; rfl⟩
  · cases hread
    obtain ⟨hsum, hsmall⟩ := Decode.opcode_of_range hpop
    have hr : (Instr.pop ⟨b - 0x58⟩).Encodable := UInt8.lt_of_le_of_lt hsmall (by decide)
    exact ⟨.plain _ hr, rfl, by rw [Form.bytes_plain, Instr.encode, hsum]; rfl⟩
  · cases hread
    exact ⟨.plain .ret trivial, rfl, by rw [hret]; rfl⟩
  · obtain ⟨⟨d, last⟩, hd, h⟩ := ok_of_bind hread
    cases h
    have hi : (Instr.jmp d).Encodable := trivial
    refine ⟨.plain _ hi, rfl, ?_⟩
    rw [Form.bytes_plain, Decode.eq_of_field hd, hjump]
    rfl
  · obtain ⟨d, s, hd, hs, rfl, rfl⟩ := Decode.eq_of_pair hread
    exact ⟨.plain (.xor32 d s) ⟨hd, hs⟩, rfl, by rw [hxor]; rfl⟩
  · rw [hsecond]
    exact Decode.form_of_second hread
  · obtain ⟨hi, hbytes⟩ := Decode.eq_of_wide hread
    refine ⟨.plain i hi, rfl, ?_⟩
    rw [Form.bytes_plain, hwide]
    exact hbytes

/-! ### Code -/

/-- Code that can be split into instructions is a sequence of spellings of them. -/
theorem forms_of_decodeFrom {offset : Nat} {bs : Bytes} {ps : List Placed} (h : decodeFrom offset bs = .ok ps) :
    ∃ fs : List Form, bs = fs.flatMap Form.bytes ∧ ps = placedFrom offset (fs.map Form.instr) := by
  fun_induction decodeFrom offset bs generalizing ps with
  | case1 =>
      cases h
      exact ⟨[], rfl, rfl⟩
  | case2 => cases h
  | case3 offset b rest i tail hdecode ih =>
      cases hrest : decodeFrom (offset + i.size) tail with
      | error e =>
          rw [hrest] at h
          cases h
      | ok last =>
          rw [hrest] at h
          cases h
          obtain ⟨f, rfl, hbytes⟩ := Instr.form_of_decode hdecode
          obtain ⟨fs, hfs, rfl⟩ := ih hrest
          exact ⟨f :: fs, by rw [hbytes, hfs]; rfl, rfl⟩

/-- Whether the shorter move of a constant can move this one. -/
def Short (v : Int64) : Prop := Int32.minValue.toInt64 ≤ v ∧ v ≤ Int32.maxValue.toInt64

instance (v : Int64) : Decidable (Short v) := inferInstanceAs (Decidable (_ ∧ _))

/-- The instruction that an assembler appends when it is asked for one: constants are moved in the shorter way. -/
def Instr.shortest : Instr → Instr
  | movImm d v => mov d v.toInt64
  | movAbs d v => mov d v
  | i => i

namespace Placed

/-- The instruction that an assembler appends when it is asked for a decoded one again. A branch gets the displacement
from its end to its target. -/
def again (p : Placed) : Instr :=
  match p.instr with
  | .jcc c _ => .jcc c (Int32.ofInt (p.target - p.stop))
  | .jmp _ => .jmp (Int32.ofInt (p.target - p.stop))
  | i => i.shortest

/-- Whether an assembler would have chosen the bytes that the code has at a decoded instruction: a long move has a
constant that needs it, and the register field that a conditional set leaves unused is zero. -/
def Canonical (code : Bytes) (p : Placed) : Prop :=
  match p.instr with
  | .movAbs _ v => ¬ Short v
  | .setcc _ _ => Decode.upper (code.getD (p.offset + 2) 0) = 0
  | _ => True

instance (code : Bytes) (p : Placed) : Decidable (p.Canonical code) := by
  unfold Canonical
  split <;> infer_instance

end Placed

/-- Appends decoded instructions again, one after another. -/
def Buffer.reassemble (b : Buffer) : List Placed → Except BufferError Buffer
  | [] => .ok b
  | p :: ps => do (← b.emit p.again).reassemble ps

/-! ### Appending again -/

namespace Instr

theorem mov_of_short {v : Int64} (h : Short v) (d : Reg) : mov d v = .movImm d v.toInt32 := if_pos h

theorem mov_of_not_short {v : Int64} (h : ¬ Short v) (d : Reg) : mov d v = .movAbs d v := if_neg h

theorem short_toInt64 (v : Int32) : Short v.toInt64 := by
  rw [Short, Int64.le_iff_toInt_le, Int64.le_iff_toInt_le]
  simp only [Int32.toInt_toInt64, Int32.toInt_minValue, Int32.toInt_maxValue]
  exact ⟨Int32.le_toInt v, Int32.toInt_le v⟩

theorem shortest_movImm (d : Reg) (v : Int32) : (movImm d v).shortest = .movImm d v := by
  rw [shortest, mov_of_short (short_toInt64 v), Int32.toInt32_toInt64]

theorem encodable_shortest {i : Instr} (h : i.Encodable) : i.shortest.Encodable := by
  cases i with
  | movImm d v => exact encodable_mov h _
  | movAbs d v => exact encodable_mov h _
  | _ => exact h

end Instr

theorem Placed.again_eq (p : Placed) : p.again = p.instr.shortest := by
  have hback (stop : Nat) (d : Int32) : Int32.ofInt (stop + d.toInt - stop) = d := by
    rw [show (stop + d.toInt - stop : Int) = d.toInt by omega, Int32.ofInt_toInt]
  obtain ⟨offset, i⟩ := p
  cases i with
  | jcc c d => exact congrArg (Instr.jcc c) (hback _ d)
  | jmp d => exact congrArg Instr.jmp (hback _ d)
  | _ => rfl

theorem Buffer.reassemble_eq {ps : List Placed} (h : ∀ p ∈ ps, p.instr.Encodable) (b : Buffer) :
    b.reassemble ps = .ok ⟨b.bytes ++ encodeAll (ps.map fun p => p.instr.shortest)⟩ := by
  induction ps generalizing b with
  | nil => simp [reassemble, encodeAll]
  | cons p ps ih =>
      rw [List.forall_mem_cons] at h
      rw [reassemble, Placed.again_eq, emit_encodable (Instr.encodable_shortest h.1), bind_of_ok rfl, ih h.2,
        List.append_assoc]
      rfl

theorem map_placedFrom {α : Type} (g : Instr → α) (offset : Nat) (is : List Instr) :
    (placedFrom offset is).map (fun p => g p.instr) = is.map g := by
  induction is generalizing offset with
  | nil => rfl
  | cons i is ih => rw [placedFrom, List.map_cons, ih, List.map_cons]

namespace Form

/-- Whether an assembler would have chosen the spelling. -/
def Canonical (f : Form) : Prop :=
  match f.instr with
  | .movAbs _ v => ¬ Short v
  | .setcc _ _ => f.spare = 0
  | _ => True

theorem length_bytes (f : Form) : f.bytes.length = f.instr.size := by
  obtain ⟨i, spare, hi, hspare⟩ := f
  cases i <;> rfl

theorem direct_inj {m n : UInt8} (hm : m < 8) (hn : n < 8) {r : Reg} (h : Instr.direct m r = Instr.direct n r) :
    m = n := by
  rw [← and_seven hm, ← and_seven hn, ← Decode.upper_direct m r, h, Decode.upper_direct]

/-- No spelling is shorter than the one that an assembler chooses. -/
theorem length_encode_shortest_le (f : Form) : f.instr.shortest.encode.length ≤ f.bytes.length := by
  obtain ⟨i, spare, hi, hspare⟩ := f
  rw [length_bytes]
  cases i with
  | movImm d v => rw [Instr.shortest_movImm]; rfl
  | movAbs d v =>
      by_cases hv : Short v
      · rw [Instr.shortest, Instr.mov_of_short hv]
        exact Nat.le_of_ble_eq_true rfl
      · rw [Instr.shortest, Instr.mov_of_not_short hv]
        rfl
  | _ => exact Nat.le_refl _

/-- A spelling is the one that an assembler chooses exactly if it is canonical. -/
theorem encode_shortest_eq_iff (f : Form) : f.instr.shortest.encode = f.bytes ↔ f.Canonical := by
  obtain ⟨i, spare, hi, hspare⟩ := f
  cases i with
  | movImm d v =>
      rw [Instr.shortest_movImm]
      exact ⟨fun _ => trivial, fun _ => rfl⟩
  | movAbs d v =>
      by_cases hv : Short v
      · rw [Instr.shortest, Instr.mov_of_short hv]
        have hlength : (Instr.movImm d v.toInt32).encode.length ≠ (Instr.movAbs d v).encode.length := by
          simp [Instr.encode, Instr.field, Bytes.le32, Bytes.le64]
        exact ⟨fun h => absurd (congrArg List.length h) hlength, fun h => absurd hv h⟩
      · rw [Instr.shortest, Instr.mov_of_not_short hv]
        exact ⟨fun _ => hv, fun _ => rfl⟩
  | setcc c r =>
      constructor
      · intro h
        simp only [Instr.shortest, Instr.encode, bytes, List.cons.injEq, true_and, and_true] at h
        exact (direct_inj (by decide) hspare h).symm
      · rintro (rfl : spare = 0)
        rfl
  | _ => exact ⟨fun _ => trivial, fun _ => rfl⟩

theorem canonical_placed (f : Form) (before after : Bytes) :
    Placed.Canonical (before ++ (f.bytes ++ after)) ⟨before.length, f.instr⟩ ↔ f.Canonical := by
  obtain ⟨i, spare, hi, hspare⟩ := f
  cases i with
  | setcc c r =>
      have hbyte : (before ++ ([0x0F, 0x90 + c.number, Instr.direct spare r] ++ after)).getD (before.length + 2) 0
          = Instr.direct spare r := by simp
      simp only [Placed.Canonical, Canonical, bytes]
      rw [hbyte, Decode.upper_direct, and_seven hspare]
  | _ => exact Iff.rfl

theorem canonical_placedFrom (fs : List Form) (before : Bytes) :
    (∀ p ∈ placedFrom before.length (fs.map instr), p.Canonical (before ++ fs.flatMap bytes))
      ↔ ∀ f ∈ fs, f.Canonical := by
  induction fs generalizing before with
  | nil => simp [placedFrom]
  | cons f fs ih =>
      have htail := ih (before ++ f.bytes)
      rw [List.length_append, length_bytes, List.append_assoc] at htail
      rw [List.map_cons, placedFrom, List.flatMap_cons, List.forall_mem_cons, List.forall_mem_cons, canonical_placed,
        htail]

end Form

/-- Two ways to write a list agree as a whole only if they agree at each element, if one of them is nowhere longer. -/
theorem flatMap_eq_flatMap_iff {α β : Type} {f g : α → List β} {l : List α} (h : ∀ x ∈ l, (f x).length ≤ (g x).length) :
    l.flatMap f = l.flatMap g ↔ ∀ x ∈ l, f x = g x := by
  have hlength {l : List α} (h : ∀ x ∈ l, (f x).length ≤ (g x).length) :
      (l.flatMap f).length ≤ (l.flatMap g).length := by
    induction l with
    | nil => exact Nat.le_refl _
    | cons x l ih =>
        rw [List.forall_mem_cons] at h
        have := ih h.2
        simp only [List.flatMap_cons, List.length_append]
        omega
  induction l with
  | nil => simp
  | cons x l ih =>
      rw [List.forall_mem_cons] at h ⊢
      rw [List.flatMap_cons, List.flatMap_cons]
      constructor
      · intro heq
        have htotal := congrArg List.length heq
        have htail := hlength h.2
        simp only [List.length_append] at htotal
        obtain ⟨hx, hl⟩ := List.append_inj heq (by omega)
        exact ⟨hx, (ih h.2).mp hl⟩
      · rintro ⟨hx, hl⟩
        rw [hx, (ih h.2).mpr hl]

/-- Whether an assembler can append the instruction: it has an encoding, and it is not the longer move of a constant
that the shorter one can move. -/
def Instr.Emitted (i : Instr) : Prop := i.Encodable ∧ ∀ d v, i = .movAbs d v → ¬ Short v

namespace Instr

/-- What an assembler appends is an instruction that it can append. -/
theorem emitted_shortest {i : Instr} (h : i.Encodable) : i.shortest.Emitted := by
  refine ⟨encodable_shortest h, fun d v hi => ?_⟩
  cases i with
  | movImm e w =>
      rw [shortest_movImm] at hi
      cases hi
  | movAbs e w =>
      by_cases hw : Short w
      · rw [shortest, mov_of_short hw] at hi
        cases hi
      · rw [shortest, mov_of_not_short hw] at hi
        cases hi
        exact hw
  | _ => cases hi

theorem Emitted.shortest_eq {i : Instr} (h : i.Emitted) : i.shortest = i := by
  cases i with
  | movImm d v => exact shortest_movImm d v
  | movAbs d v => exact mov_of_not_short (h.2 d v rfl) d
  | _ => rfl

end Instr

/-- Appending the instructions of a piece of code again gives its bytes exactly if they are all canonical. -/
theorem reassemble_of_decodeAll {code : Bytes} {ps : List Placed} (h : decodeAll code = .ok ps) :
    (∀ p ∈ ps, p.instr.Encodable) ∧
    (encodeAll (ps.map fun p => p.instr.shortest) = code ↔ ∀ p ∈ ps, p.Canonical code) := by
  obtain ⟨fs, rfl, rfl⟩ := forms_of_decodeFrom h
  refine ⟨fun p hp => ?_, ?_⟩
  · obtain ⟨f, -, hf⟩ := List.mem_map.mp (instr_mem_of_mem_placedFrom hp)
    exact hf ▸ f.encodable
  · have hbytes : encodeAll ((placedFrom 0 (fs.map Form.instr)).map fun p => p.instr.shortest)
        = fs.flatMap fun f => f.instr.shortest.encode := by
      rw [map_placedFrom, List.map_map, encodeAll, List.flatMap_map]
      rfl
    rw [hbytes, flatMap_eq_flatMap_iff fun f _ => f.length_encode_shortest_le]
    simp only [Form.encode_shortest_eq_iff]
    exact (Form.canonical_placedFrom fs []).symm

/-- Instructions taken from any code can be appended again. This gives the code back exactly if an assembler would have
chosen the bytes of each of them, so the code that an assembler can write is the code that is read and has no other
instructions. -/
theorem reassemble_decoded (code : Bytes) :
    (∀ ps, decodeAll code = .ok ps →
      ∃ b, Buffer.reassemble {} ps = .ok b ∧ (b.bytes = code ↔ ∀ p ∈ ps, p.Canonical code)) ∧
    ((∃ is : List Instr, (∀ i ∈ is, i.Emitted) ∧ code = encodeAll is) ↔
      ∃ ps, decodeAll code = .ok ps ∧ ∀ p ∈ ps, p.Canonical code) := by
  refine ⟨fun ps h => ?_, ?_, ?_⟩
  · obtain ⟨hencodable, hcode⟩ := reassemble_of_decodeAll h
    exact ⟨_, Buffer.reassemble_eq hencodable {}, hcode⟩
  · rintro ⟨is, hemitted, rfl⟩
    have hdecode := decodeAll_encodeAll fun i hi => (hemitted i hi).1
    refine ⟨_, hdecode, (reassemble_of_decodeAll hdecode).2.mp ?_⟩
    rw [map_placedFrom, List.map_congr_left fun i hi => (hemitted i hi).shortest_eq, List.map_id']
  · rintro ⟨ps, hdecode, hcanonical⟩
    obtain ⟨hencodable, hcode⟩ := reassemble_of_decodeAll hdecode
    refine ⟨_, fun i hi => ?_, (hcode.mpr hcanonical).symm⟩
    obtain ⟨p, hp, rfl⟩ := List.mem_map.mp hi
    exact Instr.emitted_shortest (hencodable p hp)

/-- Code with a conditional set and a constant that needs all its bytes is given back. -/
theorem wide_constant_reassembled :
    decodeAll (encodeAll [.setcc .equal .rcx, .movAbs .rax 0x100000000, .ret])
        = .ok [⟨0, .setcc .equal .rcx⟩, ⟨3, .movAbs .rax 0x100000000⟩, ⟨13, .ret⟩] ∧
    ∃ b, Buffer.reassemble {} [⟨0, .setcc .equal .rcx⟩, ⟨3, .movAbs .rax 0x100000000⟩, ⟨13, .ret⟩] = .ok b ∧
      b.bytes = encodeAll [.setcc .equal .rcx, .movAbs .rax 0x100000000, .ret] := by
  have hdecode : decodeAll (encodeAll [.setcc .equal .rcx, .movAbs .rax 0x100000000, .ret])
      = .ok [⟨0, .setcc .equal .rcx⟩, ⟨3, .movAbs .rax 0x100000000⟩, ⟨13, .ret⟩] := decodeAll_encodeAll (by decide)
  obtain ⟨b, hb, hbytes⟩ := (reassemble_decoded _).1 _ hdecode
  exact ⟨hdecode, b, hb, hbytes.mpr (by decide)⟩

theorem decodeFrom_of_decode {bs rest : Bytes} {i : Instr} (h : Instr.decode bs = .ok (i, rest)) (offset : Nat) :
    decodeFrom offset bs = (decodeFrom (offset + i.size) rest).map (⟨offset, i⟩ :: ·) := by
  cases bs with
  | nil => cases h
  | cons b tail =>
      rw [decodeFrom]
      split
      · rename_i f hf
        rw [h] at hf
        cases hf
      · rename_i j last hf
        rw [h] at hf
        cases hf
        rfl

/-- A conditional set with a register in its unused field, and the longer move of a small constant, are read and come
back in other bytes. -/
theorem other_spellings_read :
    (decodeAll [0x0F, 0x94, 0xC8] = .ok [⟨0, .setcc .equal .rax⟩] ∧
      Buffer.reassemble {} [⟨0, .setcc .equal .rax⟩] = .ok ⟨[0x0F, 0x94, 0xC0]⟩) ∧
    decodeAll [0x48, 0xB8, 1, 0, 0, 0, 0, 0, 0, 0] = .ok [⟨0, .movAbs .rax 1⟩] ∧
      Buffer.reassemble {} [⟨0, .movAbs .rax 1⟩] = .ok ⟨[0x48, 0xC7, 0xC0, 1, 0, 0, 0]⟩ := by
  have hset : Instr.decode [0x0F, 0x94, 0xC8] = .ok (.setcc .equal .rax, []) := by rfl
  have hmove : decodeAll (encodeAll [.movAbs .rax 1]) = .ok [⟨0, .movAbs .rax 1⟩] := decodeAll_encodeAll (by decide)
  refine ⟨⟨?_, by rfl⟩, hmove, by rfl⟩
  rw [decodeAll, decodeFrom_of_decode hset, decodeFrom]
  rfl

end TierCalc.X64
