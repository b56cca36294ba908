import TierCalc.Fallible
import TierCalc.X64.Encode

/-!
# Instructions from bytes

Decoding accepts the encodings of the instructions and nothing else, save that the unused register field of a
conditional set is not looked at and that a 64-bit constant may be small.

* `Instr.decode` takes one instruction off a byte string.
* `decodeAll` splits a whole byte string into instructions with their offsets.
-/

namespace TierCalc.X64

/-- Why bytes are no instruction. -/
inductive DecodeFault where
  | truncated
  | truncatedImmediate
  | registerOperand
  | memoryOperand
  | opcode (bytes : List UInt8)
  | extension (number opcode : UInt8)
deriving DecidableEq, Repr

namespace DecodeFault

/-- A byte as messages show it. -/
def byteText (b : UInt8) : String := "0x" ++ Bytes.hexByte b

def text : DecodeFault → String
  | truncated => "truncated instruction"
  | truncatedImmediate => "truncated immediate"
  | registerOperand => "expected register operand"
  | memoryOperand => "unsupported memory operand"
  | opcode bytes => "unsupported opcode " ++ " ".intercalate (bytes.map byteText)
  | extension n b => "unsupported /" ++ toString n.toNat ++ " for " ++ byteText b

end DecodeFault

/-- A fault and the offset of the instruction that it was found in. -/
structure DecodeError where
  offset : Nat
  fault : DecodeFault
deriving DecidableEq, Repr

def DecodeError.message (e : DecodeError) : String :=
  "amd64: decode at offset 0x" ++ Numeral.hex e.offset ++ ": " ++ e.fault.text

namespace Decode

def byte : Bytes → Except DecodeFault (UInt8 × Bytes)
  | b :: rest => .ok (b, rest)
  | [] => .error .truncated

def field : Bytes → Except DecodeFault (Int32 × Bytes)
  | a :: b :: c :: d :: rest => .ok ((Bytes.word32 a b c d).toInt32, rest)
  | _ => .error .truncatedImmediate

def wideField : Bytes → Except DecodeFault (Int64 × Bytes)
  | a :: b :: c :: d :: e :: f :: g :: h :: rest =>
      .ok ((Bytes.word64 (Bytes.word32 a b c d) (Bytes.word32 e f g h)).toInt64, rest)
  | _ => .error .truncatedImmediate

/-- The bits of a register byte that tell registers from memory. -/
def mode (b : UInt8) : UInt8 := b >>> 6

/-- The upper register number of a register byte. -/
def upper (b : UInt8) : UInt8 := (b >>> 3) &&& 7

/-- The lower register of a register byte. -/
def lower (b : UInt8) : Reg := ⟨b &&& 7⟩

/-- Takes a byte that names two registers. -/
def direct (bs : Bytes) : Except DecodeFault ((UInt8 × Reg) × Bytes) := do
  let (b, rest) ← byte bs
  if mode b = 3 then return ((upper b, lower b), rest) else throw .registerOperand

/-- Takes a byte that names a register and a base, and the displacement. -/
def memory (bs : Bytes) : Except DecodeFault ((UInt8 × Reg × Int32) × Bytes) := do
  let (b, rest) ← byte bs
  if mode b = 2 ∧ lower b ≠ Reg.rsp then
    let (d, rest) ← field rest
    return ((upper b, lower b, d), rest)
  else throw .memoryOperand

/-- Whether the next byte names two registers. -/
def startsDirect : Bytes → Bool
  | b :: _ => mode b = 3
  | [] => false

/-- An instruction after the byte that announces a second opcode byte. -/
def second (bs : Bytes) : Except DecodeFault (Instr × Bytes) := do
  let (b, rest) ← byte bs
  if 0x80 ≤ b ∧ b ≤ 0x8F then
    let (d, rest) ← field rest
    return (.jcc ⟨b - 0x80⟩ d, rest)
  else if 0x90 ≤ b ∧ b ≤ 0x9F then
    let ((_, r), rest) ← direct rest
    return (.setcc ⟨b - 0x90⟩ r, rest)
  else if b = 0xB6 then
    let ((d, s), rest) ← direct rest
    return (.movzx ⟨d⟩ s, rest)
  else throw (.opcode [0x0F, b])

/-- A move between registers or into memory. -/
def moveFrom (bs : Bytes) : Except DecodeFault (Instr × Bytes) :=
  if startsDirect bs then do
    let ((s, d), rest) ← direct bs
    return (.movReg d ⟨s⟩, rest)
  else do
    let ((s, base, disp), rest) ← memory bs
    return (.store base disp ⟨s⟩, rest)

/-- A move of a constant into a register or into memory. -/
def moveImm (bs : Bytes) : Except DecodeFault (Instr × Bytes) :=
  if startsDirect bs then do
    let ((n, d), rest) ← direct bs
    if n ≠ 0 then throw (.extension n 0xC7)
    let (imm, rest) ← field rest
    return (.movImm d imm, rest)
  else do
    let ((n, base, disp), rest) ← memory bs
    if n ≠ 0 then throw (.extension n 0xC7)
    let (imm, rest) ← field rest
    return (.storeImm base disp imm, rest)

/-- An instruction with two register operands, the first of them the lower one of the register byte. -/
def pair (make : Reg → Reg → Instr) (bs : Bytes) : Except DecodeFault (Instr × Bytes) := do
  let ((s, d), rest) ← direct bs
  return (make d ⟨s⟩, rest)

/-- An operation on two registers, by its opcode. -/
def arithmetic (b : UInt8) (bs : Bytes) : Except DecodeFault (Instr × Bytes) :=
  if b = 0x01 then pair .add bs
  else if b = 0x29 then pair .sub bs
  else if b = 0x39 then pair .cmp bs
  else if b = 0x85 then pair .test bs
  else throw (.opcode [0x48, b])

/-- A signed product. -/
def product (bs : Bytes) : Except DecodeFault (Instr × Bytes) := do
  let (b, rest) ← byte bs
  if b ≠ 0xAF then throw (.opcode [0x48, 0x0F, b])
  let ((d, s), rest) ← direct rest
  return (.imul ⟨d⟩ s, rest)

/-- A division or a change of sign. -/
def divideOrNegate (bs : Bytes) : Except DecodeFault (Instr × Bytes) := do
  let ((n, r), rest) ← direct bs
  if n = 7 then return (.idiv r, rest)
  else if n = 3 then return (.neg r, rest)
  else throw (.extension n 0xF7)

/-- A sum or difference with a 32-bit constant. -/
def adjust (bs : Bytes) : Except DecodeFault (Instr × Bytes) := do
  let ((n, r), rest) ← direct bs
  let (imm, rest) ← field rest
  if n = 0 then return (.addImm r imm, rest)
  else if n = 5 then return (.subImm r imm, rest)
  else throw (.extension n 0x81)

/-- A comparison with an 8-bit constant. -/
def compareImm (bs : Bytes) : Except DecodeFault (Instr × Bytes) := do
  let ((n, r), rest) ← direct bs
  if n ≠ 7 then throw (.extension n 0x83)
  let (imm, rest) ← byte rest
  return (.cmpImm r imm.toInt8, rest)

/-- An instruction after the byte that selects 64-bit operands. -/
def wide (bs : Bytes) : Except DecodeFault (Instr × Bytes) := do
  let (b, rest) ← byte bs
  if 0xB8 ≤ b ∧ b ≤ 0xBF then
    let (imm, rest) ← wideField rest
    return (.movAbs ⟨b - 0xB8⟩ imm, rest)
  else if b = 0x99 then return (.cqo, rest)
  else if b = 0x0F then product rest
  else if b = 0x89 then moveFrom rest
  else if b = 0x8B then
    let ((d, base, disp), rest) ← memory rest
    return (.load ⟨d⟩ base disp, rest)
  else if b = 0xC7 then moveImm rest
  else if b = 0xF7 then divideOrNegate rest
  else if b = 0x81 then adjust rest
  else if b = 0x83 then compareImm rest
  else arithmetic b rest

/-! ### Every reader shortens its input -/

theorem byte_length {bs rest : Bytes} {b : UInt8} (h : byte bs = .ok (b, rest)) :
    bs.length = rest.length + 1 := by
  cases bs <;> simp_all [byte]

theorem field_length {bs rest : Bytes} {v : Int32} (h : field bs = .ok (v, rest)) :
    bs.length = rest.length + 4 := by
  unfold field at h
  split at h <;> simp_all

theorem wideField_length {bs rest : Bytes} {v : Int64} (h : wideField bs = .ok (v, rest)) :
    bs.length = rest.length + 8 := by
  unfold wideField at h
  split at h <;> simp_all

theorem direct_length {bs rest : Bytes} {v : UInt8 × Reg} (h : direct bs = .ok (v, rest)) :
    bs.length = rest.length + 1 := by
  grind [direct, → ok_of_bind, → byte_length, pure_ok, throw_error]

theorem memory_length {bs rest : Bytes} {v : UInt8 × Reg × Int32} (h : memory bs = .ok (v, rest)) :
    bs.length = rest.length + 5 := by
  grind [memory, → ok_of_bind, → byte_length, → field_length, pure_ok, throw_error]

theorem second_length {bs rest : Bytes} {i : Instr} (h : second bs = .ok (i, rest)) :
    rest.length < bs.length := by
  grind [second, → ok_of_bind, → byte_length, → field_length, → direct_length, pure_ok, throw_error]

theorem moveFrom_length {bs rest : Bytes} {i : Instr} (h : moveFrom bs = .ok (i, rest)) :
    rest.length < bs.length := by
  grind [moveFrom, → ok_of_bind, → direct_length, → memory_length, pure_ok, throw_error]

theorem moveImm_length {bs rest : Bytes} {i : Instr} (h : moveImm bs = .ok (i, rest)) :
    rest.length < bs.length := by
  grind [moveImm, → ok_of_bind, → direct_length, → memory_length, → field_length, pure_ok, throw_error]

theorem pair_length {make : Reg → Reg → Instr} {bs rest : Bytes} {i : Instr} (h : pair make bs = .ok (i, rest)) :
    rest.length < bs.length := by
  grind [pair, → ok_of_bind, → direct_length, pure_ok]

theorem arithmetic_length {b : UInt8} {bs rest : Bytes} {i : Instr} (h : arithmetic b bs = .ok (i, rest)) :
    rest.length < bs.length := by
  grind [arithmetic, → pair_length, throw_error]

theorem product_length {bs rest : Bytes} {i : Instr} (h : product bs = .ok (i, rest)) :
    rest.length < bs.length := by
  grind [product, → ok_of_bind, → byte_length, → direct_length, pure_ok, throw_error]

theorem divideOrNegate_length {bs rest : Bytes} {i : Instr} (h : divideOrNegate bs = .ok (i, rest)) :
    rest.length < bs.length := by
  grind [divideOrNegate, → ok_of_bind, → direct_length, pure_ok, throw_error]

theorem adjust_length {bs rest : Bytes} {i : Instr} (h : adjust bs = .ok (i, rest)) :
    rest.length < bs.length := by
  grind [adjust, → ok_of_bind, → direct_length, → field_length, pure_ok, throw_error]

theorem compareImm_length {bs rest : Bytes} {i : Instr} (h : compareImm bs = .ok (i, rest)) :
    rest.length < bs.length := by
  grind [compareImm, → ok_of_bind, → byte_length, → direct_length, pure_ok, throw_error]

theorem wide_length {bs rest : Bytes} {i : Instr} (h : wide bs = .ok (i, rest)) :
    rest.length < bs.length := by
  grind [wide, → ok_of_bind, → byte_length, → wideField_length, → memory_length, → arithmetic_length,
    → product_length, → moveFrom_length, → moveImm_length, → divideOrNegate_length, → adjust_length,
    → compareImm_length, pure_ok, throw_error]

end Decode

/-- Takes one instruction off a byte string. -/
def Instr.decode (bs : Bytes) : Except DecodeFault (Instr × Bytes) := do
  let (b, rest) ← Decode.byte bs
  if 0x50 ≤ b ∧ b ≤ 0x57 then return (.push ⟨b - 0x50⟩, rest)
  else if 0x58 ≤ b ∧ b ≤ 0x5F then return (.pop ⟨b - 0x58⟩, rest)
  else if b = 0xC3 then return (.ret, rest)
  else if b = 0xE9 then
    let (d, rest) ← Decode.field rest
    return (.jmp d, rest)
  else if b = 0x31 then Decode.pair .xor32 rest
  else if b = 0x0F then Decode.second rest
  else if b = 0x48 then Decode.wide rest
  else throw (.opcode [b])

theorem Instr.decode_length {bs rest : Bytes} {i : Instr} (h : Instr.decode bs = .ok (i, rest)) :
    rest.length < bs.length := by
  grind [Instr.decode, → ok_of_bind, → Decode.byte_length, → Decode.field_length, → Decode.pair_length,
    → Decode.second_length, → Decode.wide_length, pure_ok, throw_error]

/-- An instruction at its offset in a piece of code. -/
structure Placed where
  offset : Nat
  instr : Instr
deriving DecidableEq, Repr

namespace Placed

def stop (p : Placed) : Nat := p.offset + p.instr.size

/-- The offset that a branch leads to, and zero for other instructions. -/
def target (p : Placed) : Int :=
  match p.instr.branch? with
  | some d => p.stop + d.toInt
  | none => 0

def text (p : Placed) : String := p.instr.text p.target

end Placed

/-- The instructions of a byte string that starts at an offset. -/
def decodeFrom (offset : Nat) (bs : Bytes) : Except DecodeError (List Placed) :=
  match bs with
  | [] => .ok []
  | b :: rest =>
      match _h : Instr.decode (b :: rest) with
      | .error f => .error ⟨offset, f⟩
      | .ok (i, tail) => (decodeFrom (offset + i.size) tail).map (⟨offset, i⟩ :: ·)
termination_by bs.length
decreasing_by exact Instr.decode_length _h

def decodeAll (bs : Bytes) : Except DecodeError (List Placed) := decodeFrom 0 bs

end TierCalc.X64
