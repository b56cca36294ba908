import TierCalc.X64.Bank
import TierCalc.X64.Decode

/-!
# A machine for the instructions

The part of an x86-64 processor that the instructions of `Instr` need.

* **Words.** Registers and memory hold 64-bit words, written as signed integers; addresses are words too. Memory is
  a word for every address that is a multiple of eight, lowest byte first. A word at another address lies across two
  of them.
* **Bytes of registers.** A conditional set and a zero-extending move name single bytes: numbers 0 to 3 are the low
  bytes of the first four registers and numbers 4 to 7 the bytes above them.
* **Flags.** Carry, parity, zero, sign and overflow, as sums, differences, products, changes of sign, comparisons
  and bitwise operations set them; other instructions leave them alone.
* **Programs.** A program has for every offset into the code the instruction whose bytes start there, if there is one.
* **Steps.** `step` executes the instruction that starts at the program counter. Division of a 128-bit dividend whose
  quotient does not fit, or by zero, is a fault, and so is a counter that stands at no instruction.
* **Returning.** `ret` takes an address off the stack. If it is the one that the caller left there the call is over;
  any other address leads out of the code.
-/

namespace TierCalc.X64

/-- The flags. -/
structure Flags where
  carry : Bool := false
  parity : Bool := false
  zero : Bool := false
  sign : Bool := false
  overflow : Bool := false
deriving DecidableEq, Repr, Inhabited

/-- The state of the machine; `pc` is an offset into the code. -/
structure State where
  regs : Bank Reg
  flags : Flags := {}
  mem : Bank Word
  pc : Int

/-- Why the machine stops before the code returns. -/
inductive Trap where
  | badInstruction
  | divideError
  | wildReturn
deriving DecidableEq, Repr

/-- What one step leads to. -/
inductive Next where
  | running (s : State)
  | returned (s : State)
  | trapped (t : Trap)

namespace Flags

/-- Whether the low byte of a word has an even number of bits set. -/
def evenParity (w : Word) : Bool :=
  let b := w.toUInt64.toUInt8
  let b := b ^^^ (b >>> 4)
  let b := b ^^^ (b >>> 2)
  let b := b ^^^ (b >>> 1)
  b &&& 1 == 0

/-- The flags that tell about a result, with carry and overflow given. -/
def ofResult (w : Word) (carry overflow : Bool) : Flags :=
  { carry := carry, parity := evenParity w, zero := w == 0, sign := w < 0, overflow := overflow }

def ofSum (x y : Word) : Flags :=
  ofResult (x + y) ((x + y).toUInt64 < x.toUInt64) ((x + y).toInt != x.toInt + y.toInt)

/-- The flags of a difference, and of a comparison. -/
def ofDifference (x y : Word) : Flags :=
  ofResult (x - y) (x.toUInt64 < y.toUInt64) ((x - y).toInt != x.toInt - y.toInt)

def ofProduct (x y : Word) : Flags :=
  let lost := (x * y).toInt != x.toInt * y.toInt
  ofResult (x * y) lost lost

/-- Whether a condition holds. The lowest bit of its number negates the condition of the number before. -/
def holds (f : Flags) (c : Cond) : Bool :=
  let positive :=
    match (c.number.toNat / 2) % 8 with
    | 0 => f.overflow
    | 1 => f.carry
    | 2 => f.zero
    | 3 => f.carry || f.zero
    | 4 => f.sign
    | 5 => f.parity
    | 6 => f.sign != f.overflow
    | _ => f.zero || f.sign != f.overflow
  if c.number.toNat % 2 = 1 then !positive else positive

end Flags

namespace State

def reg (s : State) (r : Reg) : Word := s.regs.get r

def setReg (s : State) (r : Reg) (w : Word) : State := { s with regs := s.regs.set r w }

/-- By how many bytes an address lies beyond a multiple of eight. -/
def excess (a : Word) : UInt64 := a.toUInt64 % 8

def load (s : State) (a : Word) : Word :=
  if excess a = 0 then s.mem.get a
  else
    let base := a - (excess a).toInt64
    let shift := 8 * excess a
    ((s.mem.get base).toUInt64 >>> shift ||| (s.mem.get (base + 8)).toUInt64 <<< (64 - shift)).toInt64

/-- The state with the word at an address changed. -/
def store (s : State) (a w : Word) : State :=
  if excess a = 0 then { s with mem := s.mem.set a w }
  else
    let base := a - (excess a).toInt64
    let shift := 8 * excess a
    let low := (s.mem.get base).toUInt64 &&& ((1 <<< shift) - 1) ||| w.toUInt64 <<< shift
    let high := ((s.mem.get (base + 8)).toUInt64 >>> shift) <<< shift ||| w.toUInt64 >>> (64 - shift)
    { s with mem := (s.mem.set base low.toInt64).set (base + 8) high.toInt64 }

def setFlags (s : State) (f : Flags) : State := { s with flags := f }

/-- The register that holds a byte register, and by how many bits the byte is shifted in it. -/
def byteReg (r : Reg) : Reg × UInt64 := if r.number < 4 then (r, 0) else (⟨r.number - 4⟩, 8)

def getByte (s : State) (r : Reg) : Word :=
  (((s.reg (byteReg r).1).toUInt64 >>> (byteReg r).2) &&& 0xFF).toInt64

def setByte (s : State) (r : Reg) (b : UInt64) : State :=
  let (reg, shift) := byteReg r
  let w := (s.reg reg).toUInt64
  s.setReg reg ((w ^^^ (w &&& (0xFF <<< shift))) ||| (b <<< shift)).toInt64

/-- The low 32 bits of a word, as a word. -/
def low32 (w : UInt64) : Word := (w &&& 0xFFFFFFFF).toInt64

def address (s : State) (base : Reg) (disp : Int32) : Word := s.reg base + disp.toInt64

end State

/-- The quotient and remainder, toward zero, of the 128-bit number with a high and a low half. -/
def divide (high low divisor : Word) : Option (Word × Word) :=
  let n := high.toInt * 0x10000000000000000 + low.toUInt64.toNat
  let d := divisor.toInt
  let q := n.tdiv d
  if d = 0 ∨ q < -0x8000000000000000 ∨ 0x8000000000000000 ≤ q then none
  else some (Int64.ofInt q, Int64.ofInt (n.tmod d))

/-- Executes an instruction at its counter; `after` is the offset of the next one and `home` the caller's address. -/
def exec (home : Word) (after : Int) (i : Instr) (s : State) : Next :=
  let s := { s with pc := after }
  match i with
  | .push r =>
      let top : Word := s.reg .rsp - 8
      .running ((s.store top (s.reg r)).setReg .rsp top)
  | .pop r =>
      let top : Word := s.reg .rsp
      .running ((s.setReg .rsp (top + 8)).setReg r (s.load top))
  | .movReg d r => .running (s.setReg d (s.reg r))
  | .movImm d imm => .running (s.setReg d imm.toInt64)
  | .movAbs d imm => .running (s.setReg d imm)
  | .load d b o => .running (s.setReg d (s.load (s.address b o)))
  | .store b o r => .running (s.store (s.address b o) (s.reg r))
  | .storeImm b o imm => .running (s.store (s.address b o) imm.toInt64)
  | .movzx d r => .running (s.setReg d (s.getByte r))
  | .add d r =>
      let (x, y) := (s.reg d, s.reg r)
      .running ((s.setReg d (x + y)).setFlags (.ofSum x y))
  | .sub d r =>
      let (x, y) := (s.reg d, s.reg r)
      .running ((s.setReg d (x - y)).setFlags (.ofDifference x y))
  | .imul d r =>
      let (x, y) := (s.reg d, s.reg r)
      .running ((s.setReg d (x * y)).setFlags (.ofProduct x y))
  | .cqo => .running (s.setReg .rdx (if s.reg .rax < 0 then -1 else 0))
  | .idiv r =>
      match divide (s.reg .rdx) (s.reg .rax) (s.reg r) with
      | some (q, m) => .running ((s.setReg .rax q).setReg .rdx m)
      | none => .trapped .divideError
  | .neg r =>
      let x := s.reg r
      .running ((s.setReg r (-x)).setFlags (.ofDifference 0 x))
  | .xor32 d r =>
      let w := State.low32 ((s.reg d).toUInt64 ^^^ (s.reg r).toUInt64)
      .running ((s.setReg d w).setFlags { Flags.ofResult w false false with sign := w ≥ 0x80000000 })
  | .addImm r imm =>
      let (x, y) := (s.reg r, imm.toInt64)
      .running ((s.setReg r (x + y)).setFlags (.ofSum x y))
  | .subImm r imm =>
      let (x, y) := (s.reg r, imm.toInt64)
      .running ((s.setReg r (x - y)).setFlags (.ofDifference x y))
  | .test x y =>
      .running (s.setFlags (.ofResult ((s.reg x).toUInt64 &&& (s.reg y).toUInt64).toInt64 false false))
  | .cmp x y => .running (s.setFlags (.ofDifference (s.reg x) (s.reg y)))
  | .cmpImm r imm => .running (s.setFlags (.ofDifference (s.reg r) imm.toInt64))
  | .setcc c r => .running (s.setByte r (if s.flags.holds c then 1 else 0))
  | .jcc c d => .running (if s.flags.holds c then { s with pc := after + d.toInt } else s)
  | .jmp d => .running { s with pc := after + d.toInt }
  | .ret =>
      let top : Word := s.reg .rsp
      if s.load top = home then .returned (s.setReg .rsp (top + 8))
      else .trapped .wildReturn

/-- The instruction that a byte string starts with, and the number of its bytes. -/
def first? (bs : Bytes) : Option (Instr × Nat) :=
  match Instr.decode bs with
  | .ok (i, _) => some (i, i.size)
  | .error _ => none

/-- The instructions that start at the bytes of a string, byte by byte. -/
def starts : Bytes → List (Option (Instr × Nat))
  | [] => []
  | b :: rest => first? (b :: rest) :: starts rest

/-- The instructions of a piece of code by offset. -/
structure Program where
  table : Array (Option (Instr × Nat))

namespace Program

/-- The program that a byte string holds. -/
def ofBytes (code : Bytes) : Program := ⟨(starts code).toArray⟩

/-- The instruction at an offset, and the number of its bytes. -/
def fetch? (p : Program) (pc : Int) : Option (Instr × Nat) :=
  if pc < 0 then none else p.table[pc.toNat]?.join

theorem getElem?_starts (code : Bytes) (n : Nat) : (starts code)[n]?.join = first? (code.drop n) := by
  induction code generalizing n with
  | nil => cases n <;> rfl
  | cons b rest ih =>
      cases n with
      | zero => simp [starts]
      | succ n => simpa [starts] using ih n

theorem fetch?_ofBytes (code : Bytes) (pc : Int) :
    (ofBytes code).fetch? pc = if pc < 0 then none else first? (code.drop pc.toNat) := by
  simp [fetch?, ofBytes, getElem?_starts]

end Program

def step (p : Program) (home : Word) (s : State) : Next :=
  match p.fetch? s.pc with
  | some (i, size) => exec home (s.pc + size) i s
  | none => .trapped .badInstruction

/-- How a run ends; `exhausted` if it has not ended within the given number of steps. -/
inductive Ending where
  | returned (s : State)
  | trapped (t : Trap)
  | exhausted

/-- Runs the machine for at most the given number of steps. -/
def run (p : Program) (home : Word) : Nat → State → Ending
  | 0, _ => .exhausted
  | fuel + 1, s =>
      match step p home s with
      | .running s => run p home fuel s
      | .returned s => .returned s
      | .trapped t => .trapped t

end TierCalc.X64
