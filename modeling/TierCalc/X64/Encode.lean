import TierCalc.Text.Bytes
import TierCalc.X64.Instr

/-!
# Instructions as bytes

The encoding of every instruction. The only prefix byte is the one that selects 64-bit operands, and memory operands
always carry a 32-bit displacement.
-/

namespace TierCalc.X64

namespace Instr

/-- The byte that selects 64-bit operands. -/
def wide : UInt8 := 0x48

/-- The byte that names two registers, or a register and an extension of the opcode. -/
def direct (reg : UInt8) (rm : Reg) : UInt8 := (0xC0 : UInt8) ||| (reg &&& 7) <<< 3 ||| rm.low

/-- The byte that names a register and the base of a memory operand. -/
def indirect (reg : UInt8) (base : Reg) : UInt8 := (0x80 : UInt8) ||| (reg &&& 7) <<< 3 ||| base.low

def field (v : Int32) : Bytes := Bytes.le32 v.toUInt32

def encode : Instr → Bytes
  | push r => [0x50 + r.number]
  | pop r => [0x58 + r.number]
  | movReg d s => [wide, 0x89, direct s.number d]
  | movImm d i => wide :: 0xC7 :: direct 0 d :: field i
  | movAbs d i => wide :: (0xB8 + d.number) :: Bytes.le64 i.toUInt64
  | load d b o => wide :: 0x8B :: indirect d.number b :: field o
  | store b o s => wide :: 0x89 :: indirect s.number b :: field o
  | storeImm b o i => wide :: 0xC7 :: indirect 0 b :: (field o ++ field i)
  | movzx d s => [0x0F, 0xB6, direct d.number s]
  | add d s => [wide, 0x01, direct s.number d]
  | sub d s => [wide, 0x29, direct s.number d]
  | imul d s => [wide, 0x0F, 0xAF, direct d.number s]
  | cqo => [wide, 0x99]
  | idiv r => [wide, 0xF7, direct 7 r]
  | neg r => [wide, 0xF7, direct 3 r]
  | xor32 d s => [0x31, direct s.number d]
  | addImm r i => wide :: 0x81 :: direct 0 r :: field i
  | subImm r i => wide :: 0x81 :: direct 5 r :: field i
  | test x y => [wide, 0x85, direct y.number x]
  | cmp x y => [wide, 0x39, direct y.number x]
  | cmpImm r i => [wide, 0x83, direct 7 r, i.toUInt8]
  | setcc c r => [0x0F, 0x90 + c.number, direct 0 r]
  | jcc c d => 0x0F :: (0x80 + c.number) :: field d
  | jmp d => 0xE9 :: field d
  | ret => [0xC3]

def size (i : Instr) : Nat := i.encode.length

end Instr

def encodeAll (is : List Instr) : Bytes := is.flatMap Instr.encode

/-- The number of bytes of a sequence of instructions. -/
def sizeAll : List Instr → Nat
  | [] => 0
  | i :: is => i.size + sizeAll is

end TierCalc.X64
