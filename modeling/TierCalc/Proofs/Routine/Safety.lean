import TierCalc.Proofs.Routine.Explored
import TierCalc.Proofs.Routine.Paths
import TierCalc.Proofs.X64.Fetch

/-!
# Accepted code is safe

An execution keeps a ledger of its own: the words that it has put on the stack, and the frame that it has set up.
Accepted code that is disciplined is safe along every execution: what it loads and stores are words of the block or
local words of the frame, it takes nothing off the stack that it has not put there, it tears down only a frame that
stands, and it returns with the stack as it found it.

Acceptance alone is not enough. The size of a displacement is computed in 32 bits, where that of the lowest one
overflows, and a load far below the frame is accepted.
-/

namespace TierCalc.Routine

open X64 Verify

/-! ### Words from an address on -/

/-- The address a number of words above another. -/
def shift (a : Word) (n : Int) : Word := a + Int64.ofInt (8 * n)

@[simp] theorem shift_zero (a : Word) : shift a 0 = a := by simp [shift]

theorem shift_shift (a : Word) (m n : Int) : shift (shift a m) n = shift a (m + n) := by
  simp only [shift, Int.mul_add, Int64.ofInt_add]
  grind

theorem toInt64_eq (o : Int32) : o.toInt64 = Int64.ofInt o.toInt := by
  have hlt := o.toInt_lt
  have hle := o.le_toInt
  rw [← Int64.toInt_inj, Int32.toInt_toInt64, Int64.toInt_ofInt]
  rw [Int.bmod_eq_of_le] <;> norm_num at * <;> omega

theorem add_toInt64 {imm : Int32} {words : Int} (h : imm.toInt = 8 * words) (a : Word) :
    a + imm.toInt64 = shift a words := by
  rw [toInt64_eq, h, shift]

theorem sub_toInt64 {imm : Int32} {words : Int} (h : imm.toInt = 8 * words) (a : Word) :
    a - imm.toInt64 = shift a (-words) := by
  rw [toInt64_eq, h, shift, Int.mul_neg, Int64.ofInt_neg, Int64.sub_eq_add_neg]

theorem toInt_neg_of_ne {o : Int32} (h : o ≠ Int32.minValue) : (-o).toInt = -o.toInt := by
  have hlt := o.toInt_lt
  have hle := o.le_toInt
  have hne : o.toInt ≠ -2147483648 := fun he => h (Int32.toInt_inj.mp he)
  norm_num at hlt hle
  rw [Int32.toInt_neg, Int.bmod_eq_of_le] <;> omega

theorem tmod_of_mod {o : Int32} (h : o % 8 = 0) : o.toInt.tmod 8 = 0 := by
  have htoInt := congrArg Int32.toInt h
  rw [Int32.toInt_mod] at htoInt
  simpa using htoInt

theorem words_of_neg {o : Int32} (haligned : o % 8 = 0) (hneg : o < 0) (hne : o ≠ Int32.minValue) :
    o.toInt = 8 * -(-o / 8).toInt ∧ 1 ≤ (-o / 8).toInt := by
  have hdiv : (-o / 8).toInt = (-o.toInt).tdiv 8 := by
    rw [Int32.toInt_div_of_ne_right _ _ (by decide), toInt_neg_of_ne hne]
    rfl
  have hlt : o.toInt < 0 := by simpa [Int32.lt_iff_toInt_lt] using hneg
  have hmod := tmod_of_mod haligned
  have := Int.tmod_add_mul_tdiv o.toInt 8
  rw [hdiv, Int.neg_tdiv]
  omega

theorem words_of_nonneg {o : Int32} (haligned : o % 8 = 0) (hnonneg : 0 ≤ o) :
    o.toInt = 8 * (o / 8).toInt ∧ 0 ≤ (o / 8).toInt := by
  have hdiv : (o / 8).toInt = o.toInt.tdiv 8 := by
    rw [Int32.toInt_div_of_ne_right _ _ (by decide)]
    rfl
  have hle : 0 ≤ o.toInt := by simpa [Int32.le_iff_toInt_le] using hnonneg
  have hmod := tmod_of_mod haligned
  have := Int.tmod_add_mul_tdiv o.toInt 8
  rw [hdiv]
  omega

/-! ### Executions and their ledgers -/

/-- A frame that an execution has set up: where it stands, how many words were on the stack then, and its local
words. -/
structure Established where
  base : Word
  held : Int
  words : Int := 0

/-- What an execution has put on the stack since the return address, and the frame that it set up last. -/
structure Ledger where
  held : Int := 0
  frame : Option Established := none

/-- The ledger after an instruction is executed in a state. -/
def Ledger.after (l : Ledger) (s : State) : Instr → Ledger
  | .push _ => { l with held := l.held + 1 }
  | .pop _ => { l with held := l.held - 1 }
  | .movReg d r =>
      if d = .rbp ∧ r = .rsp then { l with frame := some ⟨s.reg .rsp, l.held, 0⟩ }
      else if d = .rsp ∧ r = .rbp then { l with held := (l.frame.map (·.held)).getD l.held }
      else l
  | .subImm r imm =>
      if r = .rsp then
        ⟨l.held + imm.toInt / 8, l.frame.map fun f => { f with words := imm.toInt / 8 }⟩
      else l
  | .addImm r imm => if r = .rsp then { l with held := l.held - imm.toInt / 8 } else l
  | _ => l

/-- The states that an execution of a program passes from a first one, with their ledgers. -/
inductive Traced (p : Program) (home : Word) (s₀ : State) : Ledger → State → Prop where
  | start : Traced p home s₀ {} s₀
  | step {l : Ledger} {s t : State} {i : Instr} {size : Nat} (h : Traced p home s₀ l s)
      (hfetch : p.fetch? s.pc = some (i, size)) (hexec : exec home (s.pc + size) i s = .running t) :
      Traced p home s₀ (l.after s i) t

/-- Whether an instruction may be executed in a state, in a call with a block and a return address: its memory operand
is a word of the block or a local word of the frame, a word that it pops is one that was pushed, it returns with nothing
left on the stack, and it tears down only a frame that stands. -/
structure Safe (blockWords : Nat) (block top : Word) (l : Ledger) (s : State) (i : Instr) : Prop where
  memory : ∀ b o, i.memory? = some (b, o) →
    (∃ k : Int, 0 ≤ k ∧ k < blockWords ∧ s.address b o = shift block k) ∨
      ∃ f, ∃ k : Int, l.frame = some f ∧ 1 ≤ k ∧ k ≤ f.words ∧ s.address b o = shift f.base (-k)
  pop : ∀ r, i = .pop r → 1 ≤ l.held ∧ s.reg .rsp = shift top (-l.held)
  ret : i = .ret → l.held = 0 ∧ s.reg .rsp = top
  tearDown : i = .movReg .rsp .rbp → ∃ f, l.frame = some f ∧ s.reg .rbp = f.base

/-! ### Following a chart -/

section
variable {code : Bytes} {entry : Int} {blockWords : Nat} {block top home : Word} {v : Visit} {l : Ledger} {s t : State}

/-- Whether the ledger and the frame pointer agree with facts. Where the frame pointer has been given back, it need
not point to the frame. -/
def Backed (top : Word) (l : Ledger) (s : State) (lost : Prop) (g : FrameFacts) : Prop :=
  ∀ d, g.depth = some d → ∃ f, l.frame = some f ∧ f.held = d ∧ f.base = shift top (-d) ∧ g.locals ≤ f.words ∧
    (s.reg .rbp = f.base ∨ lost)

/-- Whether an execution is at a visit of a chart. -/
structure Follows (code : Bytes) (entry : Int) (block top : Word) (v : Visit) (l : Ledger) (s : State) : Prop where
  pc : s.pc = v.placed.offset
  held : l.held = v.depth
  stack : s.reg .rsp = shift top (-l.held)
  block : s.reg .rdi = block
  frame : Backed top l s (Unframed code entry v.placed) v.before

theorem Follows.safe (h : Follows code entry block top v l s) (hd : Disciplined code entry)
    (hv : v.Valid code entry blockWords) : Safe blockWords block top l s v.placed.instr := by
  have hregular := hd.regular _ hv.reached
  have hframed {d : Int} (huses : v.placed.instr.usesFrame = true) (hdepth : v.before.depth = some d) :
      ∃ f, l.frame = some f ∧ v.before.locals ≤ f.words ∧ s.reg .rbp = f.base := by
    obtain ⟨f, hf, -, -, hwords, hbp | hlost⟩ := h.frame d hdepth
    · exact ⟨f, hf, hwords, hbp⟩
    · rw [hd.framed _ hlost] at huses
      cases huses
  refine ⟨fun b o hm => ?_, fun r hi => ?_, fun hi => ?_, fun hi => ?_⟩
  · rcases checkMemory_cases (hv.effect.checked_of_memory hm) with
      ⟨haligned, ⟨rfl, ⟨d, hdepth⟩, hneg, hlocals⟩ | ⟨rfl, hnonneg, hlt⟩⟩
    · have huses : v.placed.instr.usesFrame = true ∧ o ≠ Int32.minValue := by
        cases hi : v.placed.instr with
        | load r b o =>
            rw [hi] at hm hregular
            cases hm
            exact ⟨rfl, hregular.2 rfl⟩
        | store b o r =>
            rw [hi] at hm hregular
            cases hm
            exact ⟨rfl, hregular rfl⟩
        | storeImm b o imm =>
            rw [hi] at hm hregular
            cases hm
            exact ⟨rfl, hregular rfl⟩
        | _ =>
            rw [hi] at hm
            cases hm
      obtain ⟨f, hf, hwords, hbp⟩ := hframed huses.1 hdepth
      obtain ⟨ho, hone⟩ := words_of_neg haligned hneg huses.2
      refine .inr ⟨f, _, hf, hone, hlocals.trans hwords, ?_⟩
      rw [State.address, hbp, add_toInt64 ho]
    · obtain ⟨ho, hzero⟩ := words_of_nonneg haligned hnonneg
      refine .inl ⟨_, hzero, hlt, ?_⟩
      rw [State.address, h.block, add_toInt64 ho]
  · have hdepth := hv.depth
    have hne := hv.effect
    rw [hi] at hne
    have hzero := hne.depth_of_pop
    rw [← h.held] at hzero hdepth
    exact ⟨by omega, h.stack⟩
  · have heffect := hv.effect
    rw [hi] at heffect
    have hzero : l.held = 0 := h.held.trans heffect.depth_of_ret
    exact ⟨hzero, by simpa [hzero] using h.stack⟩
  · have heffect := hv.effect
    rw [hi] at heffect
    obtain ⟨d, hdepth⟩ := heffect.framed_of_tearDown
    obtain ⟨f, hf, -, hbp⟩ := hframed (by rw [hi]; rfl) hdepth
    exact ⟨f, hf, hbp⟩

/-! ### One step -/

/-- An instruction without an effect on the stack leaves the registers of the stack, the frame and the block. -/
theorem reg_of_quiet {i : Instr} {after : Int} (hi : i.Silent ∨ i.memory? ≠ none) (hregular : i.Regular)
    (h : exec home after i s = .running t) {q : Reg} (hq : ¬ q.Free) : t.reg q = s.reg q := by
  have hset {r : Reg} (hr : r.Free) (u : State) (w : Word) : (u.setReg r w).reg q = u.reg q :=
    u.reg_setReg_of_ne (fun (e : q = r) => hq (e ▸ hr)) w
  cases i with
  | push | pop | movReg | ret =>
      rcases hi with hi | hi
      · cases hi
      · exact absurd rfl hi
  | movImm | movAbs | movzx | add | sub | imul | neg | xor32 | setcc =>
      cases h
      exact hset hregular _ _
  | load =>
      cases h
      exact hset hregular.1 _ _
  | store | storeImm =>
      cases h
      exact State.reg_store _ _ _ _
  | cqo =>
      cases h
      exact hset (by decide) _ _
  | idiv r =>
      simp only [exec] at h
      split at h
      · cases h
        exact (hset (by decide) _ _).trans (hset (by decide) _ _)
      · cases h
  | addImm r imm =>
      have hr : r.Free := by
        rcases hi with hi | hi
        · exact ⟨hi, hregular⟩
        · exact absurd rfl hi
      cases h
      exact hset hr _ _
  | subImm r imm =>
      have hr : r.Free := by
        rcases hi with hi | hi
        · exact ⟨hi, hregular.1, hregular.2.1⟩
        · exact absurd rfl hi
      cases h
      exact hset hr _ _
  | test | cmp | cmpImm | jmp =>
      cases h
      rfl
  | jcc c d =>
      rw [exec_jcc] at h
      cases h
      rfl

/-- Control goes where verification expects it to go. -/
theorem pc_mem_next {p : Placed} {size : Nat} {next : List Int} (hnext : successors size p = .ok next)
    (h : exec home p.stop p.instr s = .running t) : t.pc ∈ next := by
  rcases successors_cases hnext with ⟨hi, rfl⟩ | ⟨d, hi, rfl⟩ | ⟨c, d, hi, rfl⟩ | ⟨hret, hbranch, rfl⟩
  · rw [hi] at h
    simp only [exec] at h
    split_ifs at h
  · have htarget : p.target = p.stop + d.toInt := by simp [Placed.target, hi, Instr.branch?]
    rw [hi, exec_jmp] at h
    cases h
    simp [htarget]
  · have htarget : p.target = p.stop + d.toInt := by simp [Placed.target, hi, Instr.branch?]
    rw [hi, exec_jcc] at h
    cases h
    rw [State.pc_goto, htarget]
    split_ifs <;> simp
  · have hpc : t.pc = p.stop := by
      cases hi : p.instr with
      | ret => exact absurd hi hret
      | jmp d | jcc c d =>
          rw [hi] at hbranch
          cases hbranch
      | idiv r =>
          rw [hi] at h
          simp only [exec] at h
          split at h
          · cases h
            rfl
          · cases h
      | push r | store b o r | storeImm b o v =>
          rw [hi] at h
          cases h
          simp
      | _ =>
          rw [hi] at h
          cases h
          rfl
    simp [hpc]

theorem Ledger.after_of_quiet {i : Instr} (hi : i.Silent ∨ i.memory? ≠ none) (l : Ledger) (s : State) :
    l.after s i = l := by
  cases i with
  | push | pop | movReg | ret =>
      rcases hi with hi | hi
      · cases hi
      · exact absurd rfl hi
  | addImm | subImm =>
      rcases hi with hi | hi
      · exact if_neg hi
      · exact absurd rfl hi
  | _ => rfl

/-- What is known after an instruction of the registers and the ledger. -/
structure Advanced (code : Bytes) (entry : Int) (block top : Word) (p : Placed) (left : Int) (f : FrameFacts)
    (l : Ledger) (t : State) : Prop where
  held : l.held = left
  stack : t.reg .rsp = shift top (-left)
  block : t.reg .rdi = block
  frame : Backed top l t (∀ q, Flows code p q → Unframed code entry q) f

/-- An instruction takes the registers and the ledger along with the depth and the facts. -/
theorem Verify.Effect.advance {p : Placed} {i : Instr} {f f' : FrameFacts} {depth left after : Int}
    (h : Effect blockWords f depth p i (f', left)) (hi : p.instr = i) (hd : Disciplined code entry)
    (hreached : Reached code entry p) (hheld : l.held = depth) (hstack : s.reg .rsp = shift top (-depth))
    (hblock : s.reg .rdi = block) (hframe : Backed top l s (Unframed code entry p) f)
    (hexec : exec home after i s = .running t) : Advanced code entry block top p left f' (l.after s i) t := by
  have hregular : i.Regular := hi ▸ hd.regular p hreached
  have hkeep {l' : Ledger} (hframe' : l'.frame = l.frame) (hne : i ≠ .movReg .rbp .rsp)
      (hbp : t.reg .rbp = s.reg .rbp) : Backed top l' t (∀ q, Flows code p q → Unframed code entry q) f := by
    intro d hdepth
    obtain ⟨g, hg, hgheld, hbase, hwords, hpointer⟩ := hframe d hdepth
    refine ⟨g, hframe'.trans hg, hgheld, hbase, hwords, ?_⟩
    rcases hpointer with hpointer | hlost
    · exact .inl (hbp.trans hpointer)
    · exact .inr fun q hflow => hlost.step (hi ▸ hne) hflow
  have hquiet (hquiet : i.Silent ∨ i.memory? ≠ none) (hne : i ≠ .movReg .rbp .rsp) :
      Advanced code entry block top p depth f (l.after s i) t := by
    rw [Ledger.after_of_quiet hquiet]
    refine ⟨hheld, ?_, ?_, hkeep rfl hne (reg_of_quiet hquiet hregular hexec (by decide))⟩
    · rw [reg_of_quiet hquiet hregular hexec (by decide), hstack]
    · rw [reg_of_quiet hquiet hregular hexec (by decide), hblock]
  cases h with
  | push r =>
      rw [exec_push] at hexec
      cases hexec
      refine ⟨by simp [Ledger.after, hheld], ?_, ?_, hkeep rfl (by simp) ?_⟩
      · rw [State.reg_setReg_self, hstack, Int.neg_add, ← shift_shift]
        exact Int64.sub_eq_add_neg _ 8
      · rw [State.reg_setReg_of_ne _ (by decide), State.reg_store]
        exact hblock
      · rw [State.reg_setReg_of_ne _ (by decide), State.reg_store]
        rfl
  | pop r hzero =>
      obtain ⟨hsp, hdi⟩ := hregular
      rw [exec_pop] at hexec
      cases hexec
      refine ⟨by simp [Ledger.after, hheld], ?_, ?_, ?_⟩
      · rw [State.reg_setReg_of_ne _ (Ne.symm hsp), State.reg_setReg_self, hstack, Int.neg_sub, Int.sub_eq_add_neg,
          Int.add_comm, ← shift_shift]
        rfl
      · rw [State.reg_setReg_of_ne _ (Ne.symm hdi), State.reg_setReg_of_ne _ (by decide)]
        exact hblock
      · by_cases hbp : r = .rbp
        · subst hbp
          intro d hdepth
          obtain ⟨g, hg, hgheld, hbase, hwords, -⟩ := hframe d hdepth
          exact ⟨g, hg, hgheld, hbase, hwords, .inr fun q hflow => .popped hreached hi hflow⟩
        · refine hkeep rfl (by simp) ?_
          rw [State.reg_setReg_of_ne _ (Ne.symm hbp), State.reg_setReg_of_ne _ (by decide)]
          rfl
  | establish hnone =>
      rw [exec_movReg] at hexec
      cases hexec
      refine ⟨hheld, ?_, ?_, ?_⟩
      · rw [State.reg_setReg_of_ne _ (by decide)]
        exact hstack
      · rw [State.reg_setReg_of_ne _ (by decide)]
        exact hblock
      · rintro d ⟨⟩
        exact ⟨_, rfl, hheld, hstack, le_refl 0, .inl (State.reg_setReg_self _ _ _)⟩
  | tearDown hdepth =>
      obtain ⟨g, hg, hgheld, hbase, hwords, hpointer | hlost⟩ := hframe left hdepth
      · rw [exec_movReg] at hexec
        cases hexec
        refine ⟨by simp [Ledger.after, hg, hgheld, Reg.rsp, Reg.rbp], ?_, ?_, hkeep rfl (by decide) ?_⟩
        · rw [State.reg_setReg_self, hpointer, hbase]
        · rw [State.reg_setReg_of_ne _ (by decide)]
          exact hblock
        · rw [State.reg_setReg_of_ne _ (by decide)]
          rfl
      · have huses := hd.framed p hlost
        rw [hi] at huses
        cases huses
  | @move dst src hsp hbp =>
      have hafter : l.after s (.movReg dst src) = l := by simp [Ledger.after, hsp, hbp]
      rw [exec_movReg] at hexec
      cases hexec
      rw [hafter]
      refine ⟨hheld, ?_, ?_, hkeep rfl (by simp [hbp]) ?_⟩
      · rw [State.reg_setReg_of_ne _ (Ne.symm hsp)]
        exact hstack
      · rw [State.reg_setReg_of_ne _ (Ne.symm hregular)]
        exact hblock
      · rw [State.reg_setReg_of_ne _ (Ne.symm hbp)]
        rfl
  | @allocate imm words himm hdepth hzero =>
      have hwords : imm.toInt / 8 = words := by omega
      obtain ⟨g, hg, hgheld, hbase, -, hpointer⟩ := hframe depth hdepth
      rw [exec_subImm] at hexec
      cases hexec
      refine ⟨by simp [Ledger.after, hheld, hwords], ?_, ?_, ?_⟩
      · rw [State.reg_setFlags, State.reg_setReg_self, hstack, sub_toInt64 himm, shift_shift]
        congr 1
        omega
      · rw [State.reg_setFlags, State.reg_setReg_of_ne _ (by decide)]
        exact hblock
      · intro d hd'
        rw [hdepth] at hd'
        cases hd'
        refine ⟨{ g with words := imm.toInt / 8 }, by simp [Ledger.after, hg], hgheld, hbase, hwords.ge, ?_⟩
        rw [State.reg_setFlags, State.reg_setReg_of_ne _ (by decide)]
        rcases hpointer with hpointer | hlost
        · exact .inl hpointer
        · exact .inr fun q hflow => hlost.step (by simp [hi]) hflow
  | @drop imm words d himm hdepth hn =>
      have hwords : imm.toInt / 8 = words := by omega
      rw [exec_addImm] at hexec
      cases hexec
      refine ⟨by simp [Ledger.after, hheld, hwords], ?_, ?_, hkeep (by simp [Ledger.after]) (by simp) ?_⟩
      · rw [State.reg_setFlags, State.reg_setReg_self, hstack, add_toInt64 himm, shift_shift]
        congr 1
        omega
      · rw [State.reg_setFlags, State.reg_setReg_of_ne _ (by decide)]
        exact hblock
      · rw [State.reg_setFlags, State.reg_setReg_of_ne _ (by decide)]
        rfl
  | memory hm hcheck =>
      refine hquiet (.inr (by simp [hm])) ?_
      rintro rfl
      cases hm
  | ret hzero =>
      simp only [exec] at hexec
      split_ifs at hexec
  | silent hsilent =>
      refine hquiet (.inl hsilent) ?_
      rintro rfl
      cases hsilent

/-- One step leads from a visit of a chart to another. -/
theorem Follows.step {visits : List Visit} (hc : Chart code entry blockWords visits) (hd : Disciplined code entry)
    (hv : v ∈ visits) (h : Follows code entry block top v l s) {i : Instr} {size : Nat}
    (hfetch : (Program.ofBytes code).fetch? s.pc = some (i, size)) (hexec : exec home (s.pc + size) i s = .running t) :
    ∃ w ∈ visits, Follows code entry block top w (l.after s i) t := by
  have hvalid := hc.valid v hv
  obtain ⟨placed, hplaced, hmem⟩ := hvalid.mem
  rw [h.pc, Program.fetch?_of_decodeAll hplaced hmem] at hfetch
  cases hfetch
  have hstop : s.pc + v.placed.instr.size = v.placed.stop := by rw [h.pc, Placed.stop, Int.natCast_add]
  rw [hstop] at hexec
  obtain ⟨w, hw, hoffset, hdepth, hwithin⟩ := hc.onward v hv _ (pc_mem_next hvalid.successors hexec)
  have hadvanced := hvalid.effect.advance rfl hd hvalid.reached h.held (h.held ▸ h.stack) h.block h.frame hexec
  obtain ⟨placed', hplaced', hmem'⟩ := (hc.valid w hw).mem
  cases hplaced.symm.trans hplaced'
  have hflow : Flows code v.placed w.placed :=
    ⟨⟨placed, hplaced, hmem, hmem'⟩, v.next, hvalid.successors, hoffset ▸ pc_mem_next hvalid.successors hexec⟩
  refine ⟨w, hw, hoffset.symm, hadvanced.held.trans hdepth.symm, ?_, hadvanced.block, fun d hd' => ?_⟩
  · rw [hadvanced.stack, hadvanced.held]
  · obtain ⟨f, hf, hheld, hbase, hwords, hpointer⟩ := hadvanced.frame d (hwithin.depth d hd')
    exact ⟨f, hf, hheld, hbase, hwithin.locals.trans hwords, hpointer.imp_right fun hlost => hlost _ hflow⟩

/-- Every state of an execution is at a visit. -/
theorem Traced.follows {visits : List Visit} (hc : Chart code entry blockWords visits) (hd : Disciplined code entry)
    {s₀ : State} (hpc : s₀.pc = entry) (h : Traced (Program.ofBytes code) home s₀ l s) :
    ∃ v ∈ visits, Follows code entry (s₀.reg .rdi) (s₀.reg .rsp) v l s := by
  induction h with
  | start =>
      obtain ⟨v, hv, hoffset, hdepth, hwithin⟩ := hc.start
      refine ⟨v, hv, hpc.trans hoffset.symm, hdepth.symm, by simp, rfl, fun d hd' => ?_⟩
      cases hwithin.depth d hd'
  | step _ hfetch hexec ih =>
      obtain ⟨v, hv, hfollows⟩ := ih
      exact hfollows.step hc hd hv hfetch hexec

theorem Traced.safe {visits : List Visit} (hc : Chart code entry blockWords visits) (hd : Disciplined code entry)
    {s₀ : State} (hpc : s₀.pc = entry) (h : Traced (Program.ofBytes code) home s₀ l s) :
    ∃ i size, (Program.ofBytes code).fetch? s.pc = some (i, size) ∧
      Safe blockWords (s₀.reg .rdi) (s₀.reg .rsp) l s i := by
  obtain ⟨v, hv, hfollows⟩ := h.follows hc hd hpc
  obtain ⟨placed, hplaced, hmem⟩ := (hc.valid v hv).mem
  refine ⟨v.placed.instr, v.placed.instr.size, ?_, hfollows.safe hd (hc.valid v hv)⟩
  rw [hfollows.pc]
  exact Program.fetch?_of_decodeAll hplaced hmem

end

/-! ### Two pieces of code -/

theorem Traced.next {is : List Instr} (henc : ∀ i ∈ is, i.Encodable) {home : Word} {s₀ s t : State} {l : Ledger}
    (h : Traced (Program.ofBytes (encodeAll is)) home s₀ l s) (p : Placed) (hp : p ∈ placedFrom 0 is)
    (hpc : s.pc = p.offset) (hexec : exec home p.stop p.instr s = .running t) :
    Traced (Program.ofBytes (encodeAll is)) home s₀ (l.after s p.instr) t := by
  have hfetch := Program.fetch?_of_decodeAll (decodeAll_encodeAll henc) hp
  have hstop : s.pc + p.instr.size = p.stop := by rw [hpc, Placed.stop, Int.natCast_add]
  exact h.step (hpc ▸ hfetch) (hstop ▸ hexec)

/-- Code that copies the first word of the block to a local word unless it is zero. -/
def copying : List Instr :=
  [.push .rbp, .movReg .rbp .rsp, .subImm .rsp 8, .load .rax .rdi 0, .test .rax .rax, .jcc .equal 7,
   .store .rbp (-8) .rax, .movReg .rsp .rbp, .pop .rbp, .ret]

/-- Code that loads from the lowest displacement off its frame, which has no local words. -/
def overflowing : List Instr :=
  [.push .rbp, .movReg .rbp .rsp, .load .rax .rbp Int32.minValue, .movReg .rsp .rbp, .pop .rbp, .ret]

/-- A state in which code is entered: the block starts at address zero and the stack at another. -/
def entered : State := ⟨⟨fun r => if r = .rsp then 0x10000000000 else 0, []⟩, {}, ⟨fun _ => 0, []⟩, 0⟩

theorem copying_verified : verify (encodeAll copying) {} 0 = .ok () :=
  verify_of_within (by decide) (by decide) (by decide : Verify.exploreWithin _ _ 20 _ _ _ _ = some (.ok ()))

theorem copying_disciplined : Disciplined (encodeAll copying) 0 :=
  .of_covers (decodeAll_encodeAll (by decide)) (by decide : ∀ p ∈ placedFrom 0 copying, Covers (27 ≤ ·) (38 ≤ ·) _ p) 0

theorem overflowing_verified : verify (encodeAll overflowing) {} 0 = .ok () :=
  verify_of_within (by decide) (by decide) (by decide : Verify.exploreWithin _ _ 20 _ _ _ _ = some (.ok ()))

/-! ### Safety -/

/-- Code that is accepted and disciplined is safe along every execution from its entry: every state that is reached is
at an instruction, which may be executed there. -/
theorem verify_safe {code : Bytes} {layout : Layout} {entry : Int} (hverify : verify code layout entry = .ok ())
    (hd : Disciplined code entry) (home : Word) {s₀ s : State} (hpc : s₀.pc = entry) {l : Ledger}
    (h : Traced (Program.ofBytes code) home s₀ l s) :
    ∃ i size, (Program.ofBytes code).fetch? s.pc = some (i, size) ∧
      Safe (Frame.words layout.size) (s₀.reg .rdi) (s₀.reg .rsp) l s i := by
  obtain ⟨visits, hc⟩ := verify_charted hd hverify
  exact h.safe hc hd hpc

/-- The code that copies a word tears down the frame that it has set up. -/
theorem copying_safe : verify (encodeAll copying) {} 0 = .ok () ∧ Disciplined (encodeAll copying) 0 ∧
    ∃ l s, Traced (Program.ofBytes (encodeAll copying)) 0 entered l s ∧ s.pc = 34 ∧
      ∃ i size, (Program.ofBytes (encodeAll copying)).fetch? s.pc = some (i, size) ∧
        Safe (Frame.words 0) (entered.reg .rdi) (entered.reg .rsp) l s i := by
  have henc : ∀ i ∈ copying, i.Encodable := by decide
  have h₀ : Traced (Program.ofBytes (encodeAll copying)) 0 entered {} entered := .start
  have h₁ := h₀.next henc ⟨0, .push .rbp⟩ (by decide) rfl rfl
  have h₂ := h₁.next henc ⟨1, .movReg .rbp .rsp⟩ (by decide) rfl rfl
  have h₃ := h₂.next henc ⟨4, .subImm .rsp 8⟩ (by decide) rfl rfl
  have h₄ := h₃.next henc ⟨11, .load .rax .rdi 0⟩ (by decide) rfl rfl
  have h₅ := h₄.next henc ⟨18, .test .rax .rax⟩ (by decide) rfl rfl
  have h₆ := h₅.next henc ⟨21, .jcc .equal 7⟩ (by decide) rfl rfl
  exact ⟨copying_verified, copying_disciplined, _, _, h₆, rfl,
    verify_safe copying_verified copying_disciplined 0 rfl h₆⟩

/-- Code is accepted although it loads from an address that is neither in the block nor in its frame. -/
theorem overflow_unsafe : verify (encodeAll overflowing) {} 0 = .ok () ∧ entered.pc = 0 ∧
    ∃ l s i size, Traced (Program.ofBytes (encodeAll overflowing)) 0 entered l s ∧
      (Program.ofBytes (encodeAll overflowing)).fetch? s.pc = some (i, size) ∧
      ¬ Safe (Frame.words 0) (entered.reg .rdi) (entered.reg .rsp) l s i := by
  have henc : ∀ i ∈ overflowing, i.Encodable := by decide
  have h₀ : Traced (Program.ofBytes (encodeAll overflowing)) 0 entered {} entered := .start
  have h₁ := h₀.next henc ⟨0, .push .rbp⟩ (by decide) rfl rfl
  have h₂ := h₁.next henc ⟨1, .movReg .rbp .rsp⟩ (by decide) rfl rfl
  have hload : (⟨4, .load .rax .rbp Int32.minValue⟩ : Placed) ∈ placedFrom 0 overflowing := by decide
  have hfetch := Program.fetch?_of_decodeAll (decodeAll_encodeAll henc) hload
  refine ⟨overflowing_verified, rfl, _, _, _, _, h₂, hfetch, fun hsafe => ?_⟩
  rcases hsafe.memory .rbp Int32.minValue rfl with ⟨k, hzero, hlt, haddress⟩ | ⟨f, k, hf, hone, hle, -⟩
  · obtain rfl : k = 0 := by
      simp only [Frame.words] at hlt
      omega
    exact absurd haddress (by decide)
  · obtain rfl := Option.some.inj hf
    dsimp only at hle
    omega

end TierCalc.Routine
