import TierCalc.X64.Machine

/-!
# Executable regions

Code that has been made ready to run. A region is executable until it is released, once.

* `call` runs code like a function of one argument: the address of a block of words in `rdi`, the return address on
  top of the stack, and the answer in `rax`. Block and stack lie apart from each other.
* A call may take a step for every byte of code, which code without loops never uses up, and an allowance beyond that
  is out of reach of any loop that is ever waited for.
-/

namespace TierCalc.X64

/-- Where the block of words of a call starts. -/
def blockBase : Word := 0x10000000

/-- Where the return address of a call stands; the stack grows down from there. -/
def stackTop : Word := 0x7FFF00000000

/-- The return address of a call. -/
def returnAddress : Word := 0x400000

/-- The address of a word of the block. -/
def blockAddress (i : Nat) : Word := blockBase + 8 * Int64.ofNat i

/-- Memory with the block and the return address in place and zeros elsewhere. -/
def callMemory (frame : List Word) (a : Word) : Word :=
  if a = stackTop then returnAddress
  else
    let i := (a - blockBase).toUInt64.toNat
    if i % 8 = 0 then frame.getD (i / 8) 0 else 0

/-- The state in which code is entered. -/
def callState (entry : Int) (frame : List Word) : State :=
  { regs := { initial := fun r => if r = Reg.rdi then blockBase else if r = Reg.rsp then stackTop else 0 }
    mem := { initial := callMemory frame }
    pc := entry }

/-- The number of steps that a call may take. -/
def callSteps (code : Bytes) : Nat := code.length + 0x1000000000000

/-- The words of the block in a state. -/
def blockWords (count : Nat) (s : State) : List Word := (List.range count).map fun i => s.load (blockAddress i)

/-- What a run answers if it has returned: the word in `rax` and the words of the block. -/
def Ending.answer? (count : Nat) : Ending → Option (Word × List Word)
  | .returned s => some (s.reg .rax, blockWords count s)
  | _ => none

/-- Runs code on a block of words: the answer and the block afterwards, or none if the code does not return. -/
def call (code : Bytes) (entry : Int) (frame : List Word) : Option (Word × List Word) :=
  (run (.ofBytes code) returnAddress (callSteps code) (callState entry frame)).answer? frame.length

/-- What can go wrong with a region. -/
inductive RegionError where
  | emptyCode
  | entryOutside (entry : Int) (size : Nat)
  | released
  | invokedReleased
  | emptyFrame
  | trapped
deriving DecidableEq, Repr

def RegionError.message : RegionError → String
  | emptyCode => "native: no code to prepare"
  | entryOutside entry size =>
      "native: entry offset " ++ toString entry ++ " outside code of " ++ toString size ++ " bytes"
  | released => "native: handle has been released"
  | invokedReleased => "native: handle has been released (state released)"
  | emptyFrame => "native: frame block must hold at least the status word"
  | trapped => "native: routine did not return"

structure Region where
  code : Bytes
  entry : Int
  executable : Bool := true
deriving DecidableEq, Repr

namespace Region

/-- Makes code ready to run from an entry. -/
def prepare (code : Bytes) (entry : Int) : Except RegionError Region :=
  if code.isEmpty then .error .emptyCode
  else if entry < 0 ∨ (code.length : Int) ≤ entry then .error (.entryOutside entry code.length)
  else .ok ⟨code, entry, true⟩

def size (r : Region) : Nat := r.code.length

/-- Runs the code on a block of words. -/
def invoke (r : Region) (frame : List Word) : Except RegionError (Word × List Word) :=
  if !r.executable then .error .invokedReleased
  else if frame.isEmpty then .error .emptyFrame
  else
    match call r.code r.entry frame with
    | some answer => .ok answer
    | none => .error .trapped

/-- Gives the region up. -/
def release (r : Region) : Except RegionError Region :=
  if r.executable then .ok { r with executable := false } else .error .released

end Region

end TierCalc.X64
