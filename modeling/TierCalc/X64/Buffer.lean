import TierCalc.X64.Encode

/-!
# Code buffers

Code that grows by one instruction at a time. A branch can be written before its target is known: it is emitted with
a displacement of zero, and the place of the displacement is patched later.
-/

namespace TierCalc.X64

/-- The ways in which a buffer refuses an instruction or a patch. -/
inductive BufferError where
  | stackBase
  | siteOutOfRange (site : Int)
  | targetOutOfRange (target : Int)
  | siteBeyondEnd (site : Int) (size : Nat)
deriving DecidableEq, Repr

def BufferError.message : BufferError → String
  | stackBase => "amd64: rsp is not a supported base register"
  | siteOutOfRange site => "amd64: patch site " ++ toString site ++ " out of range"
  | targetOutOfRange target => "amd64: branch target " ++ toString target ++ " out of range"
  | siteBeyondEnd site size =>
      "runtime error: slice bounds out of range [" ++ toString site ++ ":" ++ toString size ++ "]"

/-- Code under construction. -/
structure Buffer where
  bytes : Bytes := []
deriving DecidableEq, Repr

namespace Buffer

/-- Appends an instruction. The stack pointer cannot be the base of a memory operand. -/
def emit (b : Buffer) (i : Instr) : Except BufferError Buffer :=
  match i.memory? with
  | some (base, _) => if base = Reg.rsp then .error .stackBase else .ok ⟨b.bytes ++ i.encode⟩
  | none => .ok ⟨b.bytes ++ i.encode⟩

/-- Where the displacement of a branch will stand that is appended next. -/
def site (b : Buffer) (i : Instr) : Nat := b.bytes.length + i.size - 4

/-- The greatest offset that a buffer can count. -/
def maxOffset : Int := 0x7fffffffffffffff

/-- Writes the displacement that leads from the branch at a site to a target. A site whose end is too great to be
counted is refused only after the target has been looked at. -/
def patch (b : Buffer) (site target : Int) : Except BufferError Buffer :=
  let size : Int := b.bytes.length
  if site < 0 ∨ size < site + 4 ∧ site + 4 ≤ maxOffset then .error (.siteOutOfRange site)
  else if target < 0 ∨ size < target then .error (.targetOutOfRange target)
  else if size < site + 4 then .error (.siteBeyondEnd site b.bytes.length)
  else
    let at' := site.toNat
    .ok ⟨b.bytes.take at' ++ Instr.field (Int32.ofInt (target - site - 4)) ++ b.bytes.drop (at' + 4)⟩

end Buffer

end TierCalc.X64
