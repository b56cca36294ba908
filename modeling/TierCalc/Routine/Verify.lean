import TierCalc.Routine.Layout
import TierCalc.X64.Decode

/-!
# Verifying routines

A routine is checked before it may run, by following every path through its instructions from the entry. Along each
path the number of words on the stack is tracked, counted from the return address.

* An instruction must be reached with one depth on all paths.
* The frame is set up once, its local words are taken right after, and it is torn down only when no operand is left.
* Operands are never popped below the frame's local words, and never pile up beyond `maxDepth`.
* Memory operands are words of the frame or of the block.
* A routine returns with nothing left on the stack, and its last instruction does not run off its end.

The frame's depth and size are facts of the whole routine: they hold from the moment the frame is set up on any path.
-/

namespace TierCalc.Routine

open X64

/-- What is wrong with a routine. -/
inductive VerifyFault where
  | emptyRoutine
  | notInstruction
  | depthConflict (depth other : Int)
  | unpatched
  | fallsOff
  | operandDepth
  | underflow
  | frameTwice
  | frameMissing
  | operandsRemain (count : Int)
  | stackWrite (r : Reg)
  | unalignedAdjustment (imm : Int)
  | localAllocation
  | returnDepth (depth : Int)
  | unalignedOperand (text : String)
  | outsideFrame (text : String)
  | outsideBlock (text : String)
  | baseRegister (r : Reg)
deriving DecidableEq, Repr

def VerifyFault.text : VerifyFault → String
  | emptyRoutine => "empty routine"
  | notInstruction => "control reaches a non-instruction offset"
  | depthConflict depth other =>
      "stack depth " ++ toString depth ++ " conflicts with " ++ toString other ++ " on another path"
  | unpatched => "branch displacement was never patched"
  | fallsOff => "execution falls off the end of the routine"
  | operandDepth => "operand depth exceeds " ++ toString maxDepth
  | underflow => "stack underflow"
  | frameTwice => "frame established twice"
  | frameMissing => "frame torn down before it was established"
  | operandsRemain n => "unbalanced stack: " ++ toString n ++ " operand words remain"
  | stackWrite r => "unexpected write to " ++ r.name
  | unalignedAdjustment imm => "stack adjustment " ++ toString imm ++ " is not word aligned"
  | localAllocation => "unexpected local allocation"
  | returnDepth d => "unbalanced stack at return: depth " ++ toString d
  | unalignedOperand t => "unaligned memory operand " ++ t
  | outsideFrame t => "memory operand outside the frame: " ++ t
  | outsideBlock t => "memory operand outside the frame block: " ++ t
  | baseRegister r => "unexpected base register " ++ r.name

/-- Why a routine is refused: its bytes are no instructions, or the instructions break a rule at an offset. -/
inductive VerifyError where
  | decode (e : DecodeError)
  | rule (offset : Int) (fault : VerifyFault)
deriving DecidableEq, Repr

def VerifyError.message : VerifyError → String
  | decode e => e.message
  | rule offset fault => "codegen: verify at 0x" ++ Numeral.hexInt offset ++ ": " ++ fault.text

namespace Verify

/-- The frame as far as it is known: the depth at which it was set up and its local words. -/
structure FrameFacts where
  depth : Option Int := none
  locals : Int := 0
deriving DecidableEq, Repr

/-- The operand words above the frame, if there is a frame. -/
def FrameFacts.operands? (f : FrameFacts) (depth : Int) : Option Int :=
  f.depth.map fun d => depth - d - f.locals

/-- Checks a memory operand. The size of a displacement is computed in 32 bits. -/
def checkMemory (blockWords : Nat) (f : FrameFacts) (p : Placed) (base : Reg) (disp : Int32) :
    Except VerifyFault Unit :=
  if disp % 8 ≠ 0 then .error (.unalignedOperand p.text)
  else if base = Reg.rbp then
    if f.depth.isNone ∨ disp ≥ 0 ∨ (-disp / 8).toInt > f.locals then .error (.outsideFrame p.text) else .ok ()
  else if base = Reg.rdi then
    if disp < 0 ∨ (blockWords : Int) ≤ (disp / 8).toInt then .error (.outsideBlock p.text) else .ok ()
  else .error (.baseRegister base)

/-- The effect of a move between registers. -/
def moveEffect (dst src : Reg) (f : FrameFacts) (depth : Int) : Except VerifyFault (FrameFacts × Int) :=
  if dst = Reg.rbp ∧ src = Reg.rsp then
    if f.depth.isSome then .error .frameTwice else .ok (⟨some depth, 0⟩, depth)
  else if dst = Reg.rsp ∧ src = Reg.rbp then
    match f.depth with
    | none => .error .frameMissing
    | some d => if depth - d - f.locals ≠ 0 then .error (.operandsRemain (depth - d - f.locals)) else .ok (f, d)
  else if dst = Reg.rsp ∨ dst = Reg.rbp then .error (.stackWrite dst)
  else .ok (f, depth)

/-- The effect of taking local words or of dropping operands. -/
def adjustEffect (grows : Bool) (imm : Int) (f : FrameFacts) (depth : Int) :
    Except VerifyFault (FrameFacts × Int) :=
  if imm.tmod 8 ≠ 0 then .error (.unalignedAdjustment imm)
  else
    let words := imm.tdiv 8
    if grows then
      if f.depth ≠ some depth ∨ f.locals ≠ 0 then .error .localAllocation
      else .ok ({ f with locals := words }, depth + words)
    else
      match f.operands? (depth - words) with
      | none => .error .underflow
      | some n => if n < 0 then .error .underflow else .ok (f, depth - words)

/-- The effect of an instruction on the frame and the depth. -/
def effect (blockWords : Nat) (f : FrameFacts) (depth : Int) (p : Placed) :
    Except VerifyFault (FrameFacts × Int) :=
  match p.instr with
  | .push _ =>
      match f.operands? (depth + 1) with
      | some n => if n > maxDepth then .error .operandDepth else .ok (f, depth + 1)
      | none => .ok (f, depth + 1)
  | .pop r =>
      if depth = 0 then .error .underflow
      else
        match f.operands? depth with
        | some n => if r ≠ Reg.rbp ∧ n ≤ 0 then .error .underflow else .ok (f, depth - 1)
        | none => .ok (f, depth - 1)
  | .movReg d s => moveEffect d s f depth
  | .subImm r imm => if r = Reg.rsp then adjustEffect true imm.toInt f depth else .ok (f, depth)
  | .addImm r imm => if r = Reg.rsp then adjustEffect false imm.toInt f depth else .ok (f, depth)
  | .load _ b o | .store b o _ | .storeImm b o _ => do
      checkMemory blockWords f p b o
      return (f, depth)
  | .ret => if depth ≠ 0 then .error (.returnDepth depth) else .ok (f, depth)
  | _ => .ok (f, depth)

/-- The offsets that control may reach after an instruction, the next one first. -/
def successors (size : Nat) (p : Placed) : Except VerifyFault (List Int) :=
  let falls : Except VerifyFault (List Int) := if p.stop ≥ size then .error .fallsOff else .ok [(p.stop : Int)]
  match p.instr with
  | .ret => .ok []
  | .jmp _ => if p.target = p.stop then .error .unpatched else .ok [p.target]
  | .jcc _ _ => if p.target = p.stop then .error .unpatched else falls.map (· ++ [p.target])
  | _ => falls

/-- Follows the paths that are still to be followed, each an offset with the depth there. `fresh` are the
instructions not reached so far and `depths` the depths at those that were. -/
def explore (size blockWords : Nat) (fresh : List Placed) (depths : List (Int × Int)) (f : FrameFacts)
    (work : List (Int × Int)) : Except VerifyError Unit :=
  match work with
  | [] => .ok ()
  | (offset, depth) :: rest =>
      match depths.lookup offset with
      | some other =>
          if other ≠ depth then .error (.rule offset (.depthConflict depth other))
          else explore size blockWords fresh depths f rest
      | none =>
          match _h : fresh.find? (fun p => p.offset == offset) with
          | none => .error (.rule offset .notInstruction)
          | some p =>
              match effect blockWords f depth p with
              | .error fault => .error (.rule p.offset fault)
              | .ok (f, after) =>
                  match successors size p with
                  | .error fault => .error (.rule p.offset fault)
                  | .ok next =>
                      explore size blockWords (fresh.erase p) ((offset, depth) :: depths) f
                        (next.map (fun o => (o, after)) ++ rest)
termination_by (fresh.length, work.length)
decreasing_by
  · apply Prod.Lex.right
    simp
  · apply Prod.Lex.left
    have hm := List.mem_of_find?_eq_some _h
    rw [List.length_erase_of_mem hm]
    have := List.length_pos_of_mem hm
    omega

end Verify

/-- Checks the code of a routine with a layout, entered at an offset. -/
def verify (code : Bytes) (layout : Layout) (entry : Int) : Except VerifyError Unit :=
  match decodeAll code with
  | .error e => .error (.decode e)
  | .ok [] => .error (.rule 0 .emptyRoutine)
  | .ok placed => Verify.explore code.length (Frame.words layout.size) placed [] {} [(entry, 0)]

end TierCalc.Routine
