import Mathlib.Data.List.Forall2
import TierCalc.Proofs.X64.Canonical

/-!
# Code can be moved

What code is read as does not depend on where it stands. Behind other code it is read as before, with its offsets and
the targets of its branches moved by the length of that code.

* `Form.decode_bytes`: a spelling of an instruction is read back whatever follows it. Since everything that is read is a
  spelling, no reader looks at bytes behind the instruction that it takes (`Instr.decode_append`).
* `decodeFrom_add`: reading from a later offset moves what is read, and a failure with it.
* `decodeAll_append`: code behind other code.
* `Buffer.patchAll_opened`: code whose branches stay inside it is written by appending its instructions with the
  displacements open and patching each branch to its target.
-/

namespace TierCalc.X64

/-! ### One instruction -/

/-- A spelling is read back, whatever stands in the register field that says nothing. -/
theorem Form.decode_bytes (f : Form) (rest : Bytes) : Instr.decode (f.bytes ++ rest) = .ok (f.instr, rest) := by
  obtain ⟨i, spare, hi, hspare⟩ := f
  cases i with
  | setcc c r =>
      obtain ⟨hc, hr⟩ := hi
      have hn : c.number.toNat < 16 := hc
      have hset : (0x90 : UInt8) ≤ 0x90 + c.number ∧ 0x90 + c.number ≤ 0x9F :=
        Instr.opcode_range (by simp only [UInt8.reduceToNat]; omega)
      have hjump : ¬ ((0x80 : UInt8) ≤ 0x90 + c.number ∧ 0x90 + c.number ≤ 0x8F) :=
        Instr.opcode_beyond (by simp only [UInt8.reduceToNat]; omega) (by decide)
      simp only [bytes, List.cons_append, List.nil_append, Instr.decode_second, Decode.second, Decode.byte, bind,
        Except.bind, if_pos hset, if_neg hjump, Decode.direct_bytes hspare hr, Instr.opcode_sub]
      rfl
  | _ => exact Instr.decode_encode hi rest

theorem Instr.decode_append {bs rest : Bytes} {i : Instr} (h : Instr.decode bs = .ok (i, rest)) (more : Bytes) :
    Instr.decode (bs ++ more) = .ok (i, rest ++ more) := by
  obtain ⟨f, rfl, rfl⟩ := Instr.form_of_decode h
  rw [List.append_assoc, f.decode_bytes]

theorem Instr.length_of_decode {bs rest : Bytes} {i : Instr} (h : Instr.decode bs = .ok (i, rest)) :
    bs.length = i.size + rest.length := by
  obtain ⟨f, rfl, rfl⟩ := Instr.form_of_decode h
  rw [List.length_append, f.length_bytes]

/-! ### Moving -/

def Placed.move (n : Nat) (p : Placed) : Placed := ⟨p.offset + n, p.instr⟩

def DecodeError.move (n : Nat) (e : DecodeError) : DecodeError := ⟨e.offset + n, e.fault⟩

/-- Whether an instruction is another one `n` bytes further on. A branch then leads `n` bytes further, and what is no
branch leads nowhere. -/
structure Placed.MovedBy (n : Nat) (p q : Placed) : Prop where
  offset : q.offset = p.offset + n
  instr : q.instr = p.instr
  target : q.target = if p.instr.branch?.isSome then p.target + n else 0

theorem Placed.movedBy_move (n : Nat) (p : Placed) : p.MovedBy n (p.move n) := by
  refine ⟨rfl, rfl, ?_⟩
  unfold target move stop
  cases p.instr.branch? with
  | none => rfl
  | some d =>
      simp only [Option.isSome_some, if_true]
      omega

theorem forall₂_movedBy (n : Nat) (ps : List Placed) : List.Forall₂ (Placed.MovedBy n) ps (ps.map (Placed.move n)) := by
  rw [List.forall₂_map_right_iff, List.forall₂_same]
  exact fun p _ => p.movedBy_move n

/-- Whether the branch whose displacement stands at `site` leads to an instruction, which stands at `target`. -/
def Leads (placed : List Placed) (site target : Int) : Prop :=
  ∃ p ∈ placed, p.instr.branch?.isSome ∧ (p.stop : Int) - 4 = site ∧ p.target = target ∧
    ∃ q ∈ placed, (q.offset : Int) = target

theorem Leads.move {placed : List Placed} {site target : Int} (h : Leads placed site target) (n : Nat) :
    Leads (placed.map (Placed.move n)) (site + n) (target + n) := by
  obtain ⟨p, hp, hbranch, rfl, rfl, q, hq, hoffset⟩ := h
  have hmoved := p.movedBy_move n
  refine ⟨p.move n, List.mem_map_of_mem hp, hbranch, ?_, ?_, q.move n, List.mem_map_of_mem hq, ?_⟩
  · simp only [Placed.stop, Placed.move]
    omega
  · rw [hmoved.target, if_pos hbranch]
  · simp only [Placed.move]
    omega

theorem decodeFrom_of_error {b : UInt8} {rest : Bytes} {f : DecodeFault} (h : Instr.decode (b :: rest) = .error f)
    (offset : Nat) : decodeFrom offset (b :: rest) = .error ⟨offset, f⟩ := by
  rw [decodeFrom]
  split
  · rename_i g hg
    rw [h] at hg
    cases hg
    rfl
  · rename_i i tail hg
    rw [h] at hg
    cases hg

/-- Reading from a later offset moves the instructions, or the failure. -/
theorem decodeFrom_add (offset n : Nat) (bs : Bytes) :
    decodeFrom (offset + n) bs
      = ((decodeFrom offset bs).map (List.map (Placed.move n))).mapError (DecodeError.move n) := by
  fun_induction decodeFrom offset bs with
  | case1 => rw [decodeFrom]; rfl
  | case2 offset b rest f hdecode =>
      rw [decodeFrom_of_error hdecode]
      rfl
  | case3 offset b rest i tail hdecode ih =>
      rw [decodeFrom_of_decode hdecode, Nat.add_right_comm, ih]
      cases decodeFrom (offset + i.size) tail <;> rfl

/-! ### Code behind other code -/

theorem decodeFrom_append {offset : Nat} {bs : Bytes} {ps : List Placed} (h : decodeFrom offset bs = .ok ps)
    (more : Bytes) : decodeFrom offset (bs ++ more) = (decodeFrom (offset + bs.length) more).map (ps ++ ·) := by
  fun_induction decodeFrom offset bs generalizing ps with
  | case1 offset =>
      cases h
      cases hmore : decodeFrom offset more <;> simp [hmore, Except.map]
  | case2 => cases h
  | case3 offset b rest i tail hdecode ih =>
      cases htail : decodeFrom (offset + i.size) tail with
      | error e =>
          rw [htail] at h
          cases h
      | ok last =>
          rw [htail] at h
          cases h
          rw [decodeFrom_of_decode (Instr.decode_append hdecode more), ih htail, Instr.length_of_decode hdecode,
            Nat.add_assoc]
          cases decodeFrom (offset + (i.size + tail.length)) more <;> rfl

/-- Code behind code that could be read is read as on its own, and moved. -/
theorem decodeAll_append {bs : Bytes} {ps : List Placed} (h : decodeAll bs = .ok ps) (more : Bytes) :
    decodeAll (bs ++ more)
      = ((decodeAll more).map fun qs => ps ++ qs.map (Placed.move bs.length)).mapError
          (DecodeError.move bs.length) := by
  rw [decodeAll, decodeFrom_append h, decodeFrom_add, decodeAll]
  cases decodeFrom 0 more <;> rfl

/-! ### Patched code -/

namespace Instr

/-- The call that appends the instruction, with its displacement still open if it is a branch. -/
def opened : Instr → Call
  | jcc c _ => .jcc c
  | jmp _ => .jmp
  | i => .plain i

theorem opened_of_none {i : Instr} (h : i.branch? = none) : i.opened = .plain i := by
  cases i with
  | jcc | jmp => cases h
  | _ => rfl

theorem encodable_opened {i : Instr} (h : i.Encodable) : i.opened.Encodable := by
  cases i with
  | jcc | jmp => exact h
  | _ => exact ⟨h, rfl⟩

theorem encode_of_branch {i : Instr} {d : Int32} (h : i.branch? = some d) :
    ∃ opcode : Bytes, i.size = opcode.length + 4 ∧ i.encode = opcode ++ field d ∧
      i.opened.instr.encode = opcode ++ field 0 := by
  cases i with
  | jcc c e =>
      cases h
      exact ⟨[0x0F, 0x80 + c.number], rfl, rfl, rfl⟩
  | jmp e =>
      cases h
      exact ⟨[0xE9], rfl, rfl, rfl⟩
  | _ => cases h

theorem size_opened (i : Instr) : i.opened.instr.size = i.size := by
  cases i <;> rfl

theorem isSome_opened (i : Instr) : i.opened.instr.branch?.isSome = i.branch?.isSome := by
  cases i <;> rfl

end Instr

/-- The instructions as they are appended, with their branches open. -/
def openAll (is : List Instr) : Bytes := encodeAll (is.map fun i => i.opened.instr)

theorem length_openAll (is : List Instr) : (openAll is).length = sizeAll is := by
  rw [openAll, length_encodeAll]
  induction is with
  | nil => rfl
  | cons i is ih => rw [List.map_cons, sizeAll, sizeAll, ih, Instr.size_opened]

/-- The places of the displacements of branches, each with the target of its branch, the first instruction at a given
offset. -/
def patchesFrom (offset : Nat) (is : List Instr) : List (Int × Int) :=
  ((placedFrom offset is).filter fun p => p.instr.branch?.isSome).map fun p => ((p.stop : Int) - 4, p.target)

theorem mem_patchesFrom {offset : Nat} {is : List Instr} {q : Int × Int} :
    q ∈ patchesFrom offset is ↔
      ∃ p ∈ placedFrom offset is, p.instr.branch?.isSome ∧ q = ((p.stop : Int) - 4, p.target) := by
  simp only [patchesFrom, List.mem_map, List.mem_filter, and_assoc, eq_comm]

theorem patchesFrom_cons_of_none {i : Instr} (h : i.branch? = none) (offset : Nat) (is : List Instr) :
    patchesFrom offset (i :: is) = patchesFrom (offset + i.size) is := by
  simp [patchesFrom, placedFrom, h]

theorem patchesFrom_cons_of_some {i : Instr} {d : Int32} (h : i.branch? = some d) (offset : Nat) (is : List Instr) :
    patchesFrom offset (i :: is)
      = (((offset + i.size : Nat) : Int) - 4, ((offset + i.size : Nat) : Int) + d.toInt)
        :: patchesFrom (offset + i.size) is := by
  simp [patchesFrom, placedFrom, Placed.stop, Placed.target, h]

theorem map_fst_patchesFrom (offset : Nat) (is : List Instr) :
    (patchesFrom offset is).map Prod.fst
      = (Call.sitesFrom offset (is.map Instr.opened)).map (Nat.cast : Nat → Int) := by
  induction is generalizing offset with
  | nil => rfl
  | cons i is ih =>
      rw [List.map_cons, Call.sitesFrom, Instr.size_opened, Instr.isSome_opened]
      cases hb : i.branch? with
      | none => rw [patchesFrom_cons_of_none hb, ih, if_neg (by simp)]
      | some d =>
          obtain ⟨opcode, hsize, -, -⟩ := Instr.encode_of_branch hb
          rw [patchesFrom_cons_of_some hb, List.map_cons, ih, if_pos (by simp), List.map_cons]
          congr 1
          omega

namespace Buffer

theorem patch_within (before after : Bytes) (v d : Int32) {target : Int}
    (htarget : target = ((before.length + 4 : Nat) : Int) + d.toInt) (hlow : 0 ≤ target)
    (hhigh : target ≤ (before.length + 4 + after.length : Nat)) :
    patch ⟨before ++ Instr.field v ++ after⟩ before.length target = .ok ⟨before ++ Instr.field d ++ after⟩ := by
  have hlength : (before ++ Instr.field v ++ after).length = before.length + 4 + after.length := by
    rw [List.length_append, List.length_append]
    rfl
  have hdisp : Int32.ofInt (target - (before.length : Int) - 4) = d := by
    rw [show target - (before.length : Int) - 4 = d.toInt by omega, Int32.ofInt_toInt]
  unfold patch
  dsimp only
  rw [hlength, if_neg (by omega), if_neg (by omega), if_neg (by omega), hdisp, Int.toNat_natCast, Call.overwrite]

/-- Patching each branch to its target turns the code with open branches into that of the instructions. -/
theorem patchAll_opened (before : Bytes) (is : List Instr)
    (h : ∀ q ∈ patchesFrom before.length is, 0 ≤ q.2 ∧ q.2 ≤ (before.length + sizeAll is : Nat)) :
    patchAll ⟨before ++ openAll is⟩ (patchesFrom before.length is) = .ok ⟨before ++ encodeAll is⟩ := by
  induction is generalizing before with
  | nil => rfl
  | cons i is ih =>
      have hrest := ih (before ++ i.encode)
      rw [List.length_append, List.append_assoc before i.encode (encodeAll is), ← encodeAll_cons,
        Nat.add_assoc] at hrest
      have hopen : openAll (i :: is) = i.opened.instr.encode ++ openAll is := rfl
      cases hb : i.branch? with
      | none =>
          rw [patchesFrom_cons_of_none hb] at h ⊢
          rw [hopen, Instr.opened_of_none hb, Call.instr, ← List.append_assoc]
          exact hrest h
      | some d =>
          obtain ⟨opcode, hsize, hencode, hopened⟩ := Instr.encode_of_branch hb
          have hlength : (before ++ opcode).length = before.length + opcode.length := List.length_append
          have hstop : before.length + i.size = (before ++ opcode).length + 4 := by omega
          have hsite : (((before ++ opcode).length + 4 : Nat) : Int) - 4 = (before ++ opcode).length := by omega
          have hpatches := patchesFrom_cons_of_some hb before.length is
          rw [hstop, hsite, ← hstop] at hpatches
          rw [hpatches, List.forall_mem_cons] at h
          obtain ⟨⟨hlow, hhigh⟩, hothers⟩ := h
          have hroom : ((before.length + i.size : Nat) : Int) + d.toInt
              ≤ ((before ++ opcode).length + 4 + (openAll is).length : Nat) := by
            rw [sizeAll] at hhigh
            rw [length_openAll]
            omega
          rw [hpatches, patchAll, hopen, hopened, ← List.append_assoc, ← List.append_assoc,
            patch_within _ _ 0 d (by rw [hstop]) hlow hroom, List.append_assoc before, ← hencode]
          exact hrest hothers

end Buffer

end TierCalc.X64
