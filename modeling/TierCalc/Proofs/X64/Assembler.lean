import Mathlib.Algebra.Group.Nat.Defs
import Mathlib.Logic.Function.Basic
import TierCalc.Proofs.X64.Codec
import TierCalc.X64.Buffer

/-!
# Decoding undoes assembling

An assembler appends one instruction for each call. Branches are appended before their targets are known, and their
displacements are written into the bytes later.

* `Call` is what an assembler can be asked for, and `Buffer.emitAll` asks for a list of calls. It answers the bytes and
  the places of the displacements that are still open (`Buffer.emitAll_eq`).
* `Buffer.patchAll` fills in displacements. After any patches the bytes are those of the calls with each branch settled
  by the last patch of its place (`patchAll_bytes`).
* Decoding these bytes gives one instruction back for each call.
-/

namespace TierCalc.X64

/-! ### Calls -/

/-- What an assembler can be asked to append: an instruction as it is, a constant in the shorter of its two encodings,
or a branch whose target is not known yet. -/
inductive Call where
  | plain (i : Instr)
  | constant (dst : Reg) (imm : Int64)
  | jcc (c : Cond)
  | jmp

namespace Call

def instr : Call → Instr
  | plain i => i
  | constant d v => .mov d v
  | jcc c => .jcc c 0
  | jmp => .jmp 0

/-- Whether the registers and the condition have an encoding, and the stack pointer is not the base of an operand. -/
def Encodable : Call → Prop
  | plain i => i.Encodable ∧ i.branch? = none
  | constant d _ => d.Encodable
  | jcc c => c.number < 16
  | jmp => True

instance : DecidablePred Encodable
  | plain i => inferInstanceAs (Decidable (i.Encodable ∧ i.branch? = none))
  | constant d _ => inferInstanceAs (Decidable d.Encodable)
  | jcc c => inferInstanceAs (Decidable (c.number < 16))
  | jmp => inferInstanceAs (Decidable True)

/-- Whether a decoded instruction has the form and the operands of the call, and leads where the table says for the
place of its displacement, or else to its own end. -/
def Reads (target? : Int → Option Int) : Call → Placed → Prop
  | plain i, p => p.instr = i
  | constant d v, p => p.instr = .movAbs d v ∨ ∃ w : Int32, p.instr = .movImm d w ∧ w.toInt64 = v
  | jcc c, p => (∃ d, p.instr = .jcc c d) ∧ p.target = (target? (p.stop - 4)).getD p.stop
  | jmp, p => (∃ d, p.instr = .jmp d) ∧ p.target = (target? (p.stop - 4)).getD p.stop

/-- The displacement of a branch: zero until it has a target. -/
def displacement (target? : Int → Option Int) (site : Int) : Int32 :=
  match target? site with
  | some t => Int32.ofInt (t - site - 4)
  | none => 0

/-- The instruction of a call at an offset, with its target. -/
def settled (target? : Int → Option Int) (offset : Nat) : Call → Instr
  | plain i => i
  | constant d v => .mov d v
  | jcc c => .jcc c (displacement target? (offset + 2))
  | jmp => .jmp (displacement target? (offset + 1))

/-- The instructions of calls, the first one at a given offset. -/
def settledFrom (target? : Int → Option Int) : Nat → List Call → List Instr
  | _, [] => []
  | offset, c :: cs => c.settled target? offset :: settledFrom target? (offset + c.instr.size) cs

/-- The places of the displacements of branches. -/
def sitesFrom : Nat → List Call → List Nat
  | _, [] => []
  | offset, c :: cs =>
      if c.instr.branch?.isSome then (offset + c.instr.size - 4) :: sitesFrom (offset + c.instr.size) cs
      else sitesFrom (offset + c.instr.size) cs

end Call

/-- Whether instructions follow one another without a gap from one offset to another. -/
def Contiguous : Nat → List Placed → Nat → Prop
  | start, [], stop => start = stop
  | start, p :: rest, stop => p.offset = start ∧ Contiguous p.stop rest stop

namespace Buffer

/-- Appends the instructions of calls. The answer has the places of the displacements of the branches among them. -/
def emitAll (b : Buffer) : List Call → Except BufferError (List Nat × Buffer)
  | [] => .ok ([], b)
  | c :: cs => do
      let next ← b.emit c.instr
      let (sites, last) ← next.emitAll cs
      return (if c.instr.branch?.isSome then b.site c.instr :: sites else sites, last)

/-- Patches places, each with its target, one after another. -/
def patchAll (b : Buffer) : List (Int × Int) → Except BufferError Buffer
  | [] => .ok b
  | (site, target) :: rest => do (← b.patch site target).patchAll rest

end Buffer

/-! ### Emission -/

namespace Call

/-- A branch that was not patched leads to its own end. -/
theorem settled_none (offset : Nat) (c : Call) : c.settled (fun _ => none) offset = c.instr := by
  cases c <;> rfl

theorem settledFrom_none (offset : Nat) (cs : List Call) : settledFrom (fun _ => none) offset cs = cs.map instr := by
  induction cs generalizing offset with
  | nil => rfl
  | cons c cs ih => rw [settledFrom, settled_none, ih, List.map_cons]

theorem size_settled (target? : Int → Option Int) (offset : Nat) (c : Call) :
    (c.settled target? offset).size = c.instr.size := by
  cases c <;> rfl

theorem encodable_settled (target? : Int → Option Int) (offset : Nat) {c : Call} (h : c.Encodable) :
    (c.settled target? offset).Encodable := by
  cases c with
  | plain i => exact h.1
  | constant d v => exact Instr.encodable_mov h v
  | jcc c => exact h
  | jmp => trivial

theorem encodable_settledFrom (target? : Int → Option Int) {cs : List Call} (h : ∀ c ∈ cs, c.Encodable) (offset : Nat) :
    ∀ i ∈ settledFrom target? offset cs, i.Encodable := by
  induction cs generalizing offset with
  | nil => simp [settledFrom]
  | cons c cs ih =>
      rw [List.forall_mem_cons] at h
      rw [settledFrom, List.forall_mem_cons]
      exact ⟨encodable_settled target? offset h.1, ih h.2 _⟩

end Call

namespace Buffer

theorem emit_encodable {i : Instr} (h : i.Encodable) (b : Buffer) : b.emit i = .ok ⟨b.bytes ++ i.encode⟩ := by
  unfold emit
  cases i with
  | load d base o => exact if_neg h.2.2
  | store base o r => exact if_neg h.2.2
  | storeImm base o v => exact if_neg h.2
  | _ => rfl

/-- Calls are appended in order, and the places of the branches are told. -/
theorem emitAll_eq {cs : List Call} (h : ∀ c ∈ cs, c.Encodable) (b : Buffer) :
    b.emitAll cs = .ok (Call.sitesFrom b.bytes.length cs, ⟨b.bytes ++ encodeAll (cs.map Call.instr)⟩) := by
  induction cs generalizing b with
  | nil => simp [emitAll, Call.sitesFrom, encodeAll]
  | cons c cs ih =>
      rw [List.forall_mem_cons] at h
      have hc : c.instr.Encodable := Call.settled_none 0 c ▸ Call.encodable_settled _ 0 h.1
      rw [emitAll, emit_encodable hc]
      simp only [bind, Except.bind, ih h.2, List.length_append, List.append_assoc, List.map_cons, encodeAll_cons,
        Call.sitesFrom, site, Instr.size]
      rfl

end Buffer

/-! ### Patches -/

namespace Call

variable {target? : Int → Option Int} {offset : Nat} {c : Call} {cs : List Call}

theorem encode_settled (h : c.Encodable) (hb : c.instr.branch?.isSome = true) :
    ∃ opcode : Bytes, 0 < opcode.length ∧ c.instr.size = opcode.length + 4 ∧ ∀ target? offset,
      (c.settled target? offset).encode
        = opcode ++ Instr.field (displacement target? (offset + opcode.length : Nat)) := by
  cases c with
  | plain i =>
      rw [instr, h.2] at hb
      cases hb
  | constant d v =>
      rcases Instr.mov_cases d v with ⟨hmov, -⟩ | hmov
      · rw [instr, hmov] at hb
        cases hb
      · rw [instr, hmov] at hb
        cases hb
  | jcc c => exact ⟨[0x0F, 0x80 + c.number], by simp, rfl, fun _ _ => rfl⟩
  | jmp => exact ⟨[0xE9], by simp, rfl, fun _ _ => rfl⟩

theorem mem_sitesFrom_cons (h : c.Encodable) {site : Nat} (hs : site ∈ sitesFrom offset (c :: cs)) :
    (∃ opcode : Bytes, 0 < opcode.length ∧ site = offset + opcode.length ∧ c.instr.size = opcode.length + 4 ∧
      ∀ target? offset, (c.settled target? offset).encode
        = opcode ++ Instr.field (displacement target? (offset + opcode.length : Nat))) ∨
    site ∈ sitesFrom (offset + c.instr.size) cs := by
  rw [sitesFrom] at hs
  split_ifs at hs with hb
  · rcases List.mem_cons.mp hs with rfl | hs
    · obtain ⟨opcode, hpos, hsize, hencode⟩ := encode_settled h hb
      exact .inl ⟨opcode, hpos, by omega, hsize, hencode⟩
    · exact .inr hs
  · exact .inr hs

theorem lt_of_mem_sitesFrom (h : ∀ c ∈ cs, c.Encodable) {site : Nat} (hs : site ∈ sitesFrom offset cs) :
    offset < site := by
  induction cs generalizing offset with
  | nil => cases hs
  | cons c cs ih =>
      rw [List.forall_mem_cons] at h
      rcases mem_sitesFrom_cons h.1 hs with ⟨opcode, hpos, rfl, -, -⟩ | hs
      · omega
      · have hlt := ih h.2 hs
        omega

theorem displacement_update_self (target? : Int → Option Int) (site target : Int) :
    displacement (Function.update target? site (some target)) site = Int32.ofInt (target - site - 4) := by
  rw [displacement, Function.update_self]

theorem settled_update_of_outside {site : Nat} (hs : site ≤ offset ∨ offset + c.instr.size ≤ site) (target : Int) :
    c.settled (Function.update target? site (some target)) offset = c.settled target? offset := by
  cases c with
  | plain i => rfl
  | constant d v => rfl
  | jcc c =>
      have hsize : (jcc c).instr.size = 6 := rfl
      rw [settled, settled, displacement, displacement, Function.update_of_ne (by omega)]
  | jmp =>
      have hsize : jmp.instr.size = 5 := rfl
      rw [settled, settled, displacement, displacement, Function.update_of_ne (by omega)]

theorem settledFrom_update_of_le (h : ∀ c ∈ cs, c.Encodable) {site : Nat} (hs : site ≤ offset) (target : Int) :
    settledFrom (Function.update target? site (some target)) offset cs = settledFrom target? offset cs := by
  induction cs generalizing offset with
  | nil => rfl
  | cons c cs ih =>
      rw [List.forall_mem_cons] at h
      rw [settledFrom, settledFrom, ih h.2 (by omega), settled_update_of_outside (.inl hs)]

theorem overwrite (before after : Bytes) (v w : Int32) :
    (before ++ Instr.field v ++ after).take before.length ++ Instr.field w ++
        (before ++ Instr.field v ++ after).drop (before.length + 4)
      = before ++ Instr.field w ++ after := by
  rw [List.append_assoc before, List.take_left, List.drop_length_add_append]
  rfl

/-- Writing a displacement in its place gives the branch its target and leaves all other bytes. -/
theorem encodeAll_update (target? : Int → Option Int) (h : ∀ c ∈ cs, c.Encodable) {site : Nat}
    (hs : offset + site ∈ sitesFrom offset cs) (target : Int) :
    (encodeAll (settledFrom target? offset cs)).take site ++
        Instr.field (Int32.ofInt (target - (offset + site : Nat) - 4)) ++
        (encodeAll (settledFrom target? offset cs)).drop (site + 4)
      = encodeAll (settledFrom (Function.update target? (offset + site : Nat) (some target)) offset cs) := by
  induction cs generalizing offset site with
  | nil => cases hs
  | cons c cs ih =>
      rw [List.forall_mem_cons] at h
      have hlength : (c.settled target? offset).encode.length = c.instr.size := size_settled target? offset c
      rw [settledFrom, settledFrom, encodeAll_cons, encodeAll_cons]
      rcases mem_sitesFrom_cons h.1 hs with ⟨opcode, hpos, hsite, hsize, hencode⟩ | hs
      · obtain rfl : site = opcode.length := by omega
        rw [settledFrom_update_of_le h.2 (by omega), hencode, hencode, displacement_update_self, overwrite]
      · have hlt := lt_of_mem_sitesFrom h.2 hs
        obtain ⟨k, rfl⟩ : ∃ k, site = c.instr.size + k := ⟨site - c.instr.size, by omega⟩
        rw [← Nat.add_assoc] at hs
        have hrest := ih h.2 hs
        rw [settled_update_of_outside (.inr (by omega)), Nat.add_assoc c.instr.size k 4, ← hlength,
          List.take_length_add_append, List.drop_length_add_append, hlength, ← Nat.add_assoc, ← hrest]
        simp only [List.append_assoc]

end Call

namespace Buffer

variable {b b' : Buffer} {cs : List Call} {target? : Int → Option Int}

/-- A patch that succeeds writes the displacement in its place. -/
theorem patch_bytes {site : Nat} {target : Int} (h : b.patch site target = .ok b') :
    b'.bytes = b.bytes.take site ++ Instr.field (Int32.ofInt (target - site - 4)) ++ b.bytes.drop (site + 4) := by
  unfold patch at h
  dsimp only at h
  split_ifs at h
  obtain rfl := Except.ok.inj h
  rfl

/-- The table of targets after patches: the last patch of a place counts. -/
def retarget (target? : Int → Option Int) (patches : List (Int × Int)) (site : Int) : Option Int :=
  (patches.reverse.lookup site).or (target? site)

theorem retarget_cons (target? : Int → Option Int) (site target : Int) (patches : List (Int × Int)) :
    retarget target? ((site, target) :: patches) = retarget (Function.update target? site (some target)) patches := by
  funext s
  rw [retarget, retarget, List.reverse_cons, List.lookup_append, Option.or_assoc]
  congr 1
  by_cases hs : s = site
  · subst hs
    simp
  · simp [Function.update_of_ne hs, List.lookup_cons, beq_eq_false_iff_ne.mpr hs]

/-- After patches that succeed, the bytes are those of the calls with the last targets. -/
theorem patchAll_bytes (h : ∀ c ∈ cs, c.Encodable) {patches : List (Int × Int)}
    (hsites : ∀ q ∈ patches, ∃ site ∈ Call.sitesFrom 0 cs, q.1 = (site : Int))
    (hb : b.bytes = encodeAll (Call.settledFrom target? 0 cs)) (hpatch : b.patchAll patches = .ok b') :
    b'.bytes = encodeAll (Call.settledFrom (retarget target? patches) 0 cs) := by
  induction patches generalizing b target? with
  | nil =>
      obtain rfl := Except.ok.inj hpatch
      exact hb
  | cons q patches ih =>
      obtain ⟨site, target⟩ := q
      rw [List.forall_mem_cons] at hsites
      obtain ⟨⟨site, hsite, rfl⟩, hsites⟩ := hsites
      obtain ⟨next, hnext, hrest⟩ := ok_of_bind hpatch
      have hbytes : next.bytes =
          encodeAll (Call.settledFrom (Function.update target? site (some target)) 0 cs) := by
        rw [← Nat.zero_add site] at hsite
        have hupdate := Call.encodeAll_update target? h hsite target
        rw [Nat.zero_add] at hupdate
        rw [patch_bytes hnext, hb, hupdate]
      rw [retarget_cons]
      exact ih hsites hbytes hrest

end Buffer

/-! ### Decoding -/

theorem contiguous_placedFrom (offset : Nat) (is : List Instr) :
    Contiguous offset (placedFrom offset is) (offset + sizeAll is) := by
  induction is generalizing offset with
  | nil => rfl
  | cons i is ih =>
      refine ⟨rfl, ?_⟩
      rw [sizeAll, ← Nat.add_assoc]
      exact ih (offset + i.size)

namespace Call

variable {target? : Int → Option Int}

theorem toInt_displacement {site : Int}
    (ht : ∀ t, target? site = some t → (t - site - 4).natAbs < 2 ^ 31) :
    site + 4 + (displacement target? site).toInt = (target? site).getD (site + 4) := by
  unfold displacement
  cases h : target? site with
  | none => simp
  | some t =>
      have hlt := ht t h
      have hint : (Int32.ofInt (t - site - 4)).toInt = t - site - 4 :=
        Int32.toInt_ofInt_of_le (by omega) (by omega)
      simp only [hint, Option.getD_some]
      omega

theorem reads_settled (ht : ∀ s t, target? s = some t → (t - s - 4).natAbs < 2 ^ 31) (offset : Nat) (c : Call) :
    c.Reads target? ⟨offset, c.settled target? offset⟩ := by
  cases c with
  | plain i => rfl
  | constant d v =>
      rcases Instr.mov_cases d v with ⟨hmov, hv⟩ | hmov
      · exact .inr ⟨v.toInt32, hmov, hv⟩
      · exact .inl hmov
  | jcc c =>
      have hstop : ((⟨offset, settled target? offset (jcc c)⟩ : Placed).stop : Int) = offset + 2 + 4 := rfl
      refine ⟨⟨_, rfl⟩, ?_⟩
      rw [hstop, Int.add_sub_cancel, ← toInt_displacement (ht _)]
      rfl
  | jmp =>
      have hstop : ((⟨offset, settled target? offset jmp⟩ : Placed).stop : Int) = offset + 1 + 4 := rfl
      refine ⟨⟨_, rfl⟩, ?_⟩
      rw [hstop, Int.add_sub_cancel, ← toInt_displacement (ht _)]
      rfl

theorem reads_settledFrom (ht : ∀ s t, target? s = some t → (t - s - 4).natAbs < 2 ^ 31) (offset : Nat)
    (cs : List Call) : List.Forall₂ (Reads target?) cs (placedFrom offset (settledFrom target? offset cs)) := by
  induction cs generalizing offset with
  | nil => exact .nil
  | cons c cs ih =>
      refine .cons (reads_settled ht offset c) ?_
      rw [size_settled]
      exact ih (offset + c.instr.size)

end Call

/-- What was assembled is decoded call by call: after any patches of branches by displacements that fit, decoding gives
one instruction for each call, without gaps, with the form and operands of the call, and a branch leads to the last
target that it was patched to, or to its own end. -/
theorem decodeAll_assembled {calls : List Call} (hcalls : ∀ c ∈ calls, c.Encodable) :
    ∃ sites b, Buffer.emitAll {} calls = .ok (sites, b) ∧ ∀ patches b',
      (∀ q ∈ patches, (∃ site ∈ sites, q.1 = (site : Int)) ∧ (q.2 - q.1 - 4).natAbs < 2 ^ 31) →
      b.patchAll patches = .ok b' →
      ∃ placed, decodeAll b'.bytes = .ok placed ∧ Contiguous 0 placed b'.bytes.length ∧
        List.Forall₂ (Call.Reads fun site => patches.reverse.lookup site) calls placed := by
  refine ⟨_, _, Buffer.emitAll_eq hcalls {}, fun patches b' hpatches hpatch => ?_⟩
  have hemitted : ([] : Bytes) ++ encodeAll (calls.map Call.instr)
      = encodeAll (Call.settledFrom (fun _ => none) 0 calls) := by
    rw [Call.settledFrom_none, List.nil_append]
  have hbytes := Buffer.patchAll_bytes hcalls (fun q hq => (hpatches q hq).1) hemitted hpatch
  have htable : Buffer.retarget (fun _ => none) patches = fun site => patches.reverse.lookup site := by
    funext site
    rw [Buffer.retarget, Option.or_none]
  rw [htable] at hbytes
  have hfits (s t : Int) (h : patches.reverse.lookup s = some t) : (t - s - 4).natAbs < 2 ^ 31 := by
    obtain ⟨newer, older, hsplit, -⟩ := List.lookup_eq_some_iff.mp h
    have hmem : (s, t) ∈ patches.reverse := by simp [hsplit]
    exact (hpatches (s, t) (List.mem_reverse.mp hmem)).2
  refine ⟨_, hbytes ▸ decodeAll_encodeAll (Call.encodable_settledFrom _ hcalls 0), ?_,
    Call.reads_settledFrom hfits 0 calls⟩
  rw [hbytes, length_encodeAll]
  simpa using contiguous_placedFrom 0 _

/-- A loop that is left by a conditional branch. -/
def loopCalls : List Call :=
  [.jcc .equal, .plain (.push .rax), .plain (.pop .rcx), .constant .rax 1099511627776, .jmp, .plain .ret]

theorem loop_decoded :
    (∀ c ∈ loopCalls, c.Encodable) ∧
      ∃ sites b b' placed, Buffer.emitAll {} loopCalls = .ok (sites, b) ∧
        b.patchAll [(2, 0), (19, 0), (2, 23)] = .ok b' ∧ decodeAll b'.bytes = .ok placed ∧
        Contiguous 0 placed b'.bytes.length ∧
        List.Forall₂ (Call.Reads fun site => [(2, 23), (19, 0), (2, 0)].lookup site) loopCalls placed := by
  have hcalls : ∀ c ∈ loopCalls, c.Encodable := by decide
  obtain ⟨sites, b, hemit, hdecode⟩ := decodeAll_assembled hcalls
  obtain ⟨rfl, rfl⟩ := Prod.mk.inj (Except.ok.inj ((Buffer.emitAll_eq hcalls {}).symm.trans hemit))
  obtain ⟨placed, hplaced, hcontiguous, hreads⟩ := hdecode [(2, 0), (19, 0), (2, 23)] _ (by decide) rfl
  exact ⟨hcalls, _, _, _, placed, hemit, rfl, hplaced, hcontiguous, hreads⟩

end TierCalc.X64
