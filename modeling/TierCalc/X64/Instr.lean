import TierCalc.Text.Numeral

/-!
# Instructions

The instructions of a small part of x86-64: moves, arithmetic on 64-bit registers, comparisons, branches and the
stack. Memory operands are a base register and a 32-bit displacement.

* Registers and conditions are kept by number. Eight registers and sixteen conditions have an encoding of their own;
  only six conditions have a name.
* `Instr.text` writes an instruction in Intel syntax. Branches show the offset that they lead to.
-/

namespace TierCalc.X64

/-- A register by its number. -/
structure Reg where
  number : UInt8
deriving DecidableEq, Repr, Inhabited

namespace Reg

def rax : Reg := ⟨0⟩
def rcx : Reg := ⟨1⟩
def rdx : Reg := ⟨2⟩
def rbx : Reg := ⟨3⟩
def rsp : Reg := ⟨4⟩
def rbp : Reg := ⟨5⟩
def rsi : Reg := ⟨6⟩
def rdi : Reg := ⟨7⟩

/-- The lowest three bits of the number, which is all that an encoding has room for. -/
def low (r : Reg) : UInt8 := r.number &&& 7

def name (r : Reg) : String :=
  ["rax", "rcx", "rdx", "rbx", "rsp", "rbp", "rsi", "rdi"].getD r.number.toNat s!"r?{r.number.toNat}"

def name32 (r : Reg) : String :=
  ["eax", "ecx", "edx", "ebx", "esp", "ebp", "esi", "edi"].getD r.low.toNat ""

def name8 (r : Reg) : String :=
  ["al", "cl", "dl", "bl", "spl", "bpl", "sil", "dil"].getD r.low.toNat ""

end Reg

/-- A condition by its number. -/
structure Cond where
  number : UInt8
deriving DecidableEq, Repr, Inhabited

namespace Cond

def equal : Cond := ⟨4⟩
def notEqual : Cond := ⟨5⟩
def less : Cond := ⟨12⟩
def greaterEqual : Cond := ⟨13⟩
def lessEqual : Cond := ⟨14⟩
def greater : Cond := ⟨15⟩

def name (c : Cond) : String :=
  match c.number.toNat with
  | 4 => "e"
  | 5 => "ne"
  | 12 => "l"
  | 13 => "ge"
  | 14 => "le"
  | 15 => "g"
  | n => "cc" ++ Numeral.hex n

end Cond

/-- The instructions. Displacements of branches count from the end of the branch. -/
inductive Instr where
  | push (r : Reg)
  | pop (r : Reg)
  | movReg (dst src : Reg)
  | movImm (dst : Reg) (imm : Int32)
  | movAbs (dst : Reg) (imm : Int64)
  | load (dst base : Reg) (disp : Int32)
  | store (base : Reg) (disp : Int32) (src : Reg)
  | storeImm (base : Reg) (disp imm : Int32)
  | movzx (dst src : Reg)
  | add (dst src : Reg)
  | sub (dst src : Reg)
  | imul (dst src : Reg)
  | cqo
  | idiv (r : Reg)
  | neg (r : Reg)
  | xor32 (dst src : Reg)
  | addImm (r : Reg) (imm : Int32)
  | subImm (r : Reg) (imm : Int32)
  | test (x y : Reg)
  | cmp (x y : Reg)
  | cmpImm (r : Reg) (imm : Int8)
  | setcc (c : Cond) (r : Reg)
  | jcc (c : Cond) (disp : Int32)
  | jmp (disp : Int32)
  | ret
deriving DecidableEq, Repr, Inhabited

namespace Instr

/-- The shortest move of a constant: the 32-bit form if the constant fits. -/
def mov (dst : Reg) (imm : Int64) : Instr :=
  if Int32.minValue.toInt64 ≤ imm ∧ imm ≤ Int32.maxValue.toInt64 then .movImm dst imm.toInt32 else .movAbs dst imm

def branch? : Instr → Option Int32
  | jcc _ d => some d
  | jmp d => some d
  | _ => none

/-- The base register and displacement of a memory operand. -/
def memory? : Instr → Option (Reg × Int32)
  | load _ b d => some (b, d)
  | store b d _ => some (b, d)
  | storeImm b d _ => some (b, d)
  | _ => none

def operandText (base : Reg) (disp : Int32) : String :=
  let d := disp.toInt
  let offset := if d < 0 then "-0x" ++ Numeral.hex d.natAbs else "+0x" ++ Numeral.hex d.natAbs
  "qword [" ++ base.name ++ offset ++ "]"

/-- The text of an instruction; a branch leads to `target`. -/
def text (target : Int) : Instr → String
  | push r => "push " ++ r.name
  | pop r => "pop " ++ r.name
  | movReg d s => "mov " ++ d.name ++ ", " ++ s.name
  | movImm d i => "mov " ++ d.name ++ ", " ++ toString i.toInt
  | movAbs d i => "movabs " ++ d.name ++ ", " ++ toString i.toInt
  | load d b o => "mov " ++ d.name ++ ", " ++ operandText b o
  | store b o s => "mov " ++ operandText b o ++ ", " ++ s.name
  | storeImm b o i => "mov " ++ operandText b o ++ ", " ++ toString i.toInt
  | movzx d s => "movzx " ++ d.name32 ++ ", " ++ s.name8
  | add d s => "add " ++ d.name ++ ", " ++ s.name
  | sub d s => "sub " ++ d.name ++ ", " ++ s.name
  | imul d s => "imul " ++ d.name ++ ", " ++ s.name
  | cqo => "cqo"
  | idiv r => "idiv " ++ r.name
  | neg r => "neg " ++ r.name
  | xor32 d s => "xor " ++ d.name32 ++ ", " ++ s.name32
  | addImm r i => "add " ++ r.name ++ ", " ++ toString i.toInt
  | subImm r i => "sub " ++ r.name ++ ", " ++ toString i.toInt
  | test x y => "test " ++ x.name ++ ", " ++ y.name
  | cmp x y => "cmp " ++ x.name ++ ", " ++ y.name
  | cmpImm r i => "cmp " ++ r.name ++ ", " ++ toString i.toInt
  | setcc c r => "set" ++ c.name ++ " " ++ r.name8
  | jcc c _ => "j" ++ c.name ++ " 0x" ++ Numeral.hexInt target
  | jmp _ => "jmp 0x" ++ Numeral.hexInt target
  | ret => "ret"

end Instr

end TierCalc.X64
