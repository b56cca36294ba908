import TierCalc.Proofs.X64.Execution
import TierCalc.Routine.Verify

/-!
# The paths that verification follows

Verification visits every instruction that control can reach, each once, with one depth and with the facts about the
frame that are known by then. Those facts belong to the whole routine: what one path found out is taken for granted on
the paths that are followed after it.

* `Flows` is the flow of control. `Branched` are the instructions after a conditional branch, and `Unframed` those
  between the restoring of the frame pointer and the next set-up of a frame.
* `Disciplined` code writes to the registers that hold the stack, the frame and the block only in ways that
  verification follows. It sets its frame up before it branches, and leaves the frame pointer alone once it has given
  it back.
* `explore_charted`: if verification of disciplined code succeeds, there is a chart of visits, and what is known at a
  visit is known on each way there.
-/

namespace TierCalc.X64

/-- Whether a register holds neither the stack, nor the frame, nor the block. -/
def Reg.Free (r : Reg) : Prop := r ≠ .rsp ∧ r ≠ .rbp ∧ r ≠ .rdi

instance : DecidablePred Reg.Free := fun _ => inferInstanceAs (Decidable (_ ∧ _ ∧ _))

namespace Instr

/-- Whether an instruction is a conditional branch. -/
def isBranch : Instr → Bool
  | jcc _ _ => true
  | _ => false

/-- Whether an instruction sets a frame up or takes its local words. -/
def setsUp : Instr → Bool
  | movReg d s => d == .rbp && s == .rsp
  | subImm r _ => r == .rsp
  | _ => false

/-- Whether an instruction relies on the frame pointer. -/
def usesFrame : Instr → Bool
  | movReg d s => d == .rsp && s == .rbp
  | load _ b _ | store b _ _ | storeImm b _ _ => b == .rbp
  | _ => false

/-- Whether an instruction writes to the registers of the stack, the frame and the block only in ways that
verification follows, takes no negative number of local words, and has no displacement whose size overflows. -/
def Regular : Instr → Prop
  | pop r => r ≠ .rsp ∧ r ≠ .rdi
  | movReg d _ => d ≠ .rdi
  | addImm r _ => r ≠ .rbp ∧ r ≠ .rdi
  | subImm r imm => r ≠ .rbp ∧ r ≠ .rdi ∧ (r = .rsp → 0 ≤ imm.toInt)
  | load d b o => d.Free ∧ (b = .rbp → o ≠ Int32.minValue)
  | store b o _ | storeImm b o _ => b = .rbp → o ≠ Int32.minValue
  | movImm d _ | movAbs d _ | movzx d _ | add d _ | sub d _ | imul d _ | neg d | xor32 d _ => d.Free
  | setcc _ r => (State.byteReg r).1.Free
  | _ => True

instance : DecidablePred Regular
  | push _ | cqo | idiv _ | test _ _ | cmp _ _ | cmpImm _ _ | jcc _ _ | jmp _ | ret => inferInstanceAs (Decidable True)
  | pop _ => inferInstanceAs (Decidable (_ ∧ _))
  | movReg _ _ => inferInstanceAs (Decidable (_ ≠ _))
  | addImm _ _ => inferInstanceAs (Decidable (_ ∧ _))
  | subImm _ _ => inferInstanceAs (Decidable (_ ∧ _ ∧ (_ → _)))
  | load _ _ _ => inferInstanceAs (Decidable (_ ∧ (_ → _)))
  | store _ _ _ | storeImm _ _ _ => inferInstanceAs (Decidable (_ → _))
  | movImm d _ | movAbs d _ | movzx d _ | add d _ | sub d _ | imul d _ | neg d | xor32 d _ =>
      inferInstanceAs (Decidable d.Free)
  | setcc _ r => inferInstanceAs (Decidable (State.byteReg r).1.Free)

/-- Whether an instruction has no effect on the stack and no memory operand. -/
def Silent : Instr → Prop
  | push _ | pop _ | movReg _ _ | load _ _ _ | store _ _ _ | storeImm _ _ _ | ret => False
  | addImm r _ | subImm r _ => r ≠ .rsp
  | _ => True

end Instr

end TierCalc.X64

namespace TierCalc.Routine.Verify

open X64

/-! ### The effect of one instruction -/

/-- What verification accepts of an instruction, and what it makes of the facts and the depth. -/
inductive Effect (blockWords : Nat) (f : FrameFacts) (depth : Int) (p : Placed) : Instr → FrameFacts × Int → Prop where
  | push (r : Reg) : Effect blockWords f depth p (.push r) (f, depth + 1)
  | pop (r : Reg) (h : depth ≠ 0) : Effect blockWords f depth p (.pop r) (f, depth - 1)
  | establish (h : f.depth = none) : Effect blockWords f depth p (.movReg .rbp .rsp) (⟨some depth, 0⟩, depth)
  | tearDown {d : Int} (h : f.depth = some d) : Effect blockWords f depth p (.movReg .rsp .rbp) (f, d)
  | move {dst : Reg} (src : Reg) (hsp : dst ≠ .rsp) (hbp : dst ≠ .rbp) :
      Effect blockWords f depth p (.movReg dst src) (f, depth)
  | allocate {imm : Int32} {words : Int} (himm : imm.toInt = 8 * words) (h : f.depth = some depth) (hl : f.locals = 0) :
      Effect blockWords f depth p (.subImm .rsp imm) ({ f with locals := words }, depth + words)
  | drop {imm : Int32} {words d : Int} (himm : imm.toInt = 8 * words) (h : f.depth = some d)
      (hn : 0 ≤ depth - words - d - f.locals) : Effect blockWords f depth p (.addImm .rsp imm) (f, depth - words)
  | memory {i : Instr} {b : Reg} {o : Int32} (hm : i.memory? = some (b, o))
      (hcheck : checkMemory blockWords f p b o = .ok ()) : Effect blockWords f depth p i (f, depth)
  | ret (h : depth = 0) : Effect blockWords f depth p .ret (f, depth)
  | silent {i : Instr} (hi : i.Silent) : Effect blockWords f depth p i (f, depth)

section
variable {blockWords : Nat} {f : FrameFacts} {depth : Int} {p : Placed} {out : FrameFacts × Int}

theorem moveEffect_effect {d s : Reg} (h : moveEffect d s f depth = .ok out) :
    Effect blockWords f depth p (.movReg d s) out := by
  unfold moveEffect at h
  split_ifs at h with hup hframed hdown hother
  · obtain ⟨rfl, rfl⟩ := hup
    cases h
    exact .establish (by simpa using hframed)
  · obtain ⟨rfl, rfl⟩ := hdown
    split at h
    · cases h
    · rename_i d hd
      split_ifs at h
      cases h
      exact .tearDown hd
  · cases h
    exact .move s (fun h => hother (.inl h)) fun h => hother (.inr h)

theorem adjustEffect_effect {imm : Int32} {grows : Bool} (h : adjustEffect grows imm.toInt f depth = .ok out) :
    Effect blockWords f depth p (if grows then .subImm .rsp imm else .addImm .rsp imm) out := by
  have himm (haligned : ¬ imm.toInt.tmod 8 ≠ 0) : imm.toInt = 8 * imm.toInt.tdiv 8 := by
    have := Int.tmod_add_mul_tdiv imm.toInt 8
    omega
  unfold adjustEffect at h
  split_ifs at h with haligned hgrows hbad
  · cases h
    rw [if_pos hgrows]
    rw [not_or, not_not, not_not] at hbad
    exact .allocate (himm haligned) hbad.1 hbad.2
  · rw [if_neg hgrows]
    dsimp only at h
    split at h
    · cases h
    · rename_i n hn
      split_ifs at h with hneg
      cases h
      obtain ⟨d, hd, rfl⟩ := Option.map_eq_some_iff.mp hn
      exact .drop (himm haligned) hd (by omega)

theorem effect_cases (h : effect blockWords f depth p = .ok out) : Effect blockWords f depth p p.instr out := by
  have hmemory {i : Instr} {b : Reg} {o : Int32} (hm : i.memory? = some (b, o))
      (h : (do checkMemory blockWords f p b o; return (f, depth) : Except VerifyFault (FrameFacts × Int)) = .ok out) :
      Effect blockWords f depth p i out := by
    obtain ⟨_, hcheck, h⟩ := ok_of_bind h
    cases h
    exact .memory hm hcheck
  unfold effect at h
  cases hi : p.instr with
  | push r =>
      simp only [hi] at h
      split at h
      · split_ifs at h
        cases h
        exact .push r
      · cases h
        exact .push r
  | pop r =>
      simp only [hi] at h
      split_ifs at h with hzero
      split at h
      · split_ifs at h
        cases h
        exact .pop r hzero
      · cases h
        exact .pop r hzero
  | movReg d s =>
      simp only [hi] at h
      exact moveEffect_effect h
  | subImm r imm =>
      simp only [hi] at h
      split_ifs at h with hr
      · subst hr
        exact adjustEffect_effect h
      · cases h
        exact .silent hr
  | addImm r imm =>
      simp only [hi] at h
      split_ifs at h with hr
      · subst hr
        exact adjustEffect_effect h
      · cases h
        exact .silent hr
  | load d b o =>
      simp only [hi] at h
      exact hmemory rfl h
  | store b o r =>
      simp only [hi] at h
      exact hmemory rfl h
  | storeImm b o v =>
      simp only [hi] at h
      exact hmemory rfl h
  | ret =>
      simp only [hi] at h
      split_ifs at h with hzero
      cases h
      exact .ret (not_not.mp hzero)
  | _ =>
      simp only [hi] at h
      cases h
      exact .silent trivial

theorem Effect.depth_of_pop {r : Reg} (h : Effect blockWords f depth p (.pop r) out) : depth ≠ 0 := by
  cases h with
  | pop _ hzero => exact hzero
  | memory hm => cases hm
  | silent hsilent => cases hsilent

theorem Effect.depth_of_ret (h : Effect blockWords f depth p .ret out) : depth = 0 := by
  cases h with
  | ret hzero => exact hzero
  | memory hm => cases hm
  | silent hsilent => cases hsilent

theorem Effect.framed_of_tearDown (h : Effect blockWords f depth p (.movReg .rsp .rbp) out) :
    ∃ d, f.depth = some d := by
  cases h with
  | tearDown hd => exact ⟨_, hd⟩
  | move _ hsp => exact absurd rfl hsp
  | memory hm => cases hm
  | silent hsilent => cases hsilent

theorem Effect.checked_of_memory {i : Instr} (h : Effect blockWords f depth p i out) {b : Reg} {o : Int32}
    (hm : i.memory? = some (b, o)) : checkMemory blockWords f p b o = .ok () := by
  cases h with
  | memory hm' hcheck =>
      cases hm.symm.trans hm'
      exact hcheck
  | silent hsilent =>
      cases i with
      | load => cases hsilent
      | store => cases hsilent
      | storeImm => cases hsilent
      | _ => cases hm
  | _ => cases hm

theorem checkMemory_cases {b : Reg} {o : Int32} (h : checkMemory blockWords f p b o = .ok ()) :
    o % 8 = 0 ∧
      (b = .rbp ∧ (∃ d, f.depth = some d) ∧ o < 0 ∧ (-o / 8).toInt ≤ f.locals ∨
        b = .rdi ∧ 0 ≤ o ∧ (o / 8).toInt < blockWords) := by
  unfold checkMemory at h
  split_ifs at h with haligned hbp hframe hdi hblock
  · rw [not_or, not_or, not_lt] at hframe
    obtain ⟨hsome, hneg, hlocals⟩ := hframe
    have hdepth : ∃ d, f.depth = some d := by
      simpa [Option.isNone_iff_eq_none, Option.ne_none_iff_exists'] using hsome
    exact ⟨not_not.mp haligned, .inl ⟨hbp, hdepth, Int32.not_le.mp hneg, hlocals⟩⟩
  · rw [not_or, not_le] at hblock
    exact ⟨not_not.mp haligned, .inr ⟨hdi, Int32.not_lt.mp hblock.1, hblock.2⟩⟩

end

/-! ### Facts about the frame -/

/-- Whether facts are part of others. -/
structure FrameFacts.Within (f g : FrameFacts) : Prop where
  depth : ∀ d, f.depth = some d → g.depth = some d
  locals : f.locals ≤ g.locals

/-- Whether facts can be those of a frame: it stands at or below the return address, and has local words only if it is
set up. -/
structure FrameFacts.WellFormed (f : FrameFacts) : Prop where
  depth : ∀ d, f.depth = some d → 0 ≤ d
  locals : 0 ≤ f.locals
  bare : f.depth = none → f.locals = 0

theorem FrameFacts.Within.refl (f : FrameFacts) : f.Within f := ⟨fun _ h => h, le_refl _⟩

theorem FrameFacts.Within.trans {f g h : FrameFacts} (hfg : f.Within g) (hgh : g.Within h) : f.Within h :=
  ⟨fun d hd => hgh.depth d (hfg.depth d hd), hfg.locals.trans hgh.locals⟩

/-- A regular instruction adds to the facts, and only if it sets the frame up; depths stay below the return address. -/
theorem Effect.facts {blockWords : Nat} {f f' : FrameFacts} {depth depth' : Int} {p : Placed} {i : Instr}
    (h : Effect blockWords f depth p i (f', depth')) (hi : i.Regular) (hf : f.WellFormed) (hdepth : 0 ≤ depth) :
    f.Within f' ∧ f'.WellFormed ∧ 0 ≤ depth' ∧ (i.setsUp = false → f' = f) := by
  have hlocals := hf.locals
  cases h with
  | push r => exact ⟨.refl f, hf, by omega, fun _ => rfl⟩
  | pop r hzero => exact ⟨.refl f, hf, by omega, fun _ => rfl⟩
  | establish hnone =>
      refine ⟨⟨fun d hd => ?_, by simp [hf.bare hnone]⟩, ⟨fun d hd => ?_, le_refl 0, fun h => ?_⟩, hdepth, fun h => ?_⟩
      · rw [hnone] at hd
        cases hd
      · cases hd
        exact hdepth
      · cases h
      · cases h
  | tearDown hd => exact ⟨.refl f, hf, hf.depth _ hd, fun _ => rfl⟩
  | move src hsp hbp => exact ⟨.refl f, hf, hdepth, fun _ => rfl⟩
  | @allocate imm words himm hd hzero =>
      have hwords : 0 ≤ words := by
        have := hi.2.2 rfl
        omega
      refine ⟨⟨fun _ h => h, by simp [hzero, hwords]⟩, ⟨hf.depth, hwords, fun h => ?_⟩, by omega, fun h => ?_⟩
      · rw [hd] at h
        cases h
      · cases h
  | @drop imm words d himm hd hn =>
      have := hf.depth d hd
      exact ⟨.refl f, hf, by omega, fun _ => rfl⟩
  | memory hm hcheck => exact ⟨.refl f, hf, hdepth, fun _ => rfl⟩
  | ret hzero => exact ⟨.refl f, hf, hdepth, fun _ => rfl⟩
  | silent hsilent => exact ⟨.refl f, hf, hdepth, fun _ => rfl⟩

/-! ### The flow of control -/

theorem successors_cases {size : Nat} {p : Placed} {next : List Int} (h : successors size p = .ok next) :
    (p.instr = .ret ∧ next = []) ∨ (∃ d, p.instr = .jmp d ∧ next = [p.target]) ∨
      (∃ c d, p.instr = .jcc c d ∧ next = [(p.stop : Int), p.target]) ∨
      (p.instr ≠ .ret ∧ p.instr.branch? = none ∧ next = [(p.stop : Int)]) := by
  unfold successors at h
  dsimp only at h
  cases hi : p.instr with
  | ret =>
      simp only [hi] at h
      cases h
      exact .inl ⟨rfl, rfl⟩
  | jmp d =>
      simp only [hi] at h
      split_ifs at h
      cases h
      exact .inr (.inl ⟨d, rfl, rfl⟩)
  | jcc c d =>
      simp only [hi] at h
      split_ifs at h
      · cases h
      · obtain rfl : [(p.stop : Int), p.target] = next := Except.ok.inj h
        exact .inr (.inr (.inl ⟨c, d, rfl, rfl⟩))
  | _ =>
      simp only [hi] at h
      split_ifs at h
      cases h
      exact .inr (.inr (.inr ⟨by simp, rfl, rfl⟩))

/-- Whether control can pass from one instruction of a piece of code to another. -/
structure Flows (code : Bytes) (p q : Placed) : Prop where
  mem : ∃ placed, decodeAll code = .ok placed ∧ p ∈ placed ∧ q ∈ placed
  next : ∃ next, successors code.length p = .ok next ∧ (q.offset : Int) ∈ next

/-- The instructions that control can reach from an entry. -/
inductive Reached (code : Bytes) (entry : Int) : Placed → Prop where
  | entry {placed : List Placed} {p : Placed} (hplaced : decodeAll code = .ok placed) (hp : p ∈ placed)
      (hentry : (p.offset : Int) = entry) : Reached code entry p
  | step {p q : Placed} (hp : Reached code entry p) (hflow : Flows code p q) : Reached code entry q

/-- The instructions that control can reach after a conditional branch. -/
inductive Branched (code : Bytes) (entry : Int) : Placed → Prop where
  | taken {p q : Placed} {c : Cond} {d : Int32} (hp : Reached code entry p) (hi : p.instr = .jcc c d)
      (hflow : Flows code p q) : Branched code entry q
  | step {p q : Placed} (hp : Branched code entry p) (hflow : Flows code p q) : Branched code entry q

/-- The instructions that control can reach after the frame pointer has been restored, before a frame is set up. -/
inductive Unframed (code : Bytes) (entry : Int) : Placed → Prop where
  | popped {p q : Placed} (hp : Reached code entry p) (hi : p.instr = .pop .rbp) (hflow : Flows code p q) :
      Unframed code entry q
  | step {p q : Placed} (hp : Unframed code entry p) (hi : p.instr ≠ .movReg .rbp .rsp) (hflow : Flows code p q) :
      Unframed code entry q

/-- Whether code keeps to what verification takes for granted. -/
structure Disciplined (code : Bytes) (entry : Int) : Prop where
  regular : ∀ p, Reached code entry p → p.instr.Regular
  settled : ∀ p, Branched code entry p → p.instr.setsUp = false
  framed : ∀ p, Unframed code entry p → p.instr.usesFrame = false

/-- The offsets that control may reach after an instruction, if it is accepted. -/
def onward (size : Nat) (p : Placed) : List Int := (successors size p).toOption.getD []

/-- Whether an instruction is regular, and two sets of offsets cover what comes after branches and what comes after
the frame pointer was restored: the one has no set-up of a frame, the other no use of it. -/
def Covers (branched unframed : Int → Prop) (size : Nat) (p : Placed) : Prop :=
  p.instr.Regular ∧
    (p.instr.isBranch = true ∨ branched p.offset → ∀ o ∈ onward size p, branched o) ∧
    (branched p.offset → p.instr.setsUp = false) ∧
    (p.instr = .pop .rbp ∨ unframed p.offset ∧ p.instr ≠ .movReg .rbp .rsp → ∀ o ∈ onward size p, unframed o) ∧
    (unframed p.offset → p.instr.usesFrame = false)

instance {branched unframed : Int → Prop} [DecidablePred branched] [DecidablePred unframed] (size : Nat) :
    DecidablePred (Covers branched unframed size) :=
  fun _ => inferInstanceAs (Decidable (_ ∧ (_ → _) ∧ (_ → _) ∧ (_ → _) ∧ (_ → _)))

section
variable {code : Bytes} {entry : Int} {placed : List Placed} {branched unframed : Int → Prop}

theorem Flows.onward {p q : Placed} (h : Flows code p q) (hplaced : decodeAll code = .ok placed) :
    p ∈ placed ∧ q ∈ placed ∧ (q.offset : Int) ∈ onward code.length p := by
  obtain ⟨placed', hplaced', hp, hq⟩ := h.mem
  obtain ⟨next, hnext, hmem⟩ := h.next
  cases hplaced.symm.trans hplaced'
  exact ⟨hp, hq, by rw [Verify.onward, hnext]; exact hmem⟩

/-- Discipline can be checked. -/
theorem Disciplined.of_covers (hplaced : decodeAll code = .ok placed)
    (h : ∀ p ∈ placed, Covers branched unframed code.length p) (entry : Int) : Disciplined code entry := by
  have hreached {p : Placed} (hp : Reached code entry p) : p ∈ placed := by
    cases hp with
    | entry hplaced' hp =>
        cases hplaced.symm.trans hplaced'
        exact hp
    | step _ hflow => exact (hflow.onward hplaced).2.1
  have hbranched {p : Placed} (hp : Branched code entry p) : p ∈ placed ∧ branched p.offset := by
    induction hp with
    | taken hp hi hflow =>
        obtain ⟨hp, hq, hmem⟩ := hflow.onward hplaced
        exact ⟨hq, (h _ hp).2.1 (.inl (by rw [hi]; rfl)) _ hmem⟩
    | step _ hflow ih =>
        obtain ⟨hp, hq, hmem⟩ := hflow.onward hplaced
        exact ⟨hq, (h _ hp).2.1 (.inr ih.2) _ hmem⟩
  have hunframed {p : Placed} (hp : Unframed code entry p) : p ∈ placed ∧ unframed p.offset := by
    induction hp with
    | popped hp hi hflow =>
        obtain ⟨hp, hq, hmem⟩ := hflow.onward hplaced
        exact ⟨hq, (h _ hp).2.2.2.1 (.inl hi) _ hmem⟩
    | step _ hi hflow ih =>
        obtain ⟨hp, hq, hmem⟩ := hflow.onward hplaced
        exact ⟨hq, (h _ hp).2.2.2.1 (.inr ⟨ih.2, hi⟩) _ hmem⟩
  exact
    { regular := fun p hp => (h p (hreached hp)).1
      settled := fun p hp => (h p (hbranched hp).1).2.2.1 (hbranched hp).2
      framed := fun p hp => (h p (hunframed hp).1).2.2.2.2 (hunframed hp).2 }

end

/-! ### Visits -/

/-- A visit of an instruction: the depth and the facts that it finds, those that it leaves, and where control goes. -/
structure Visit where
  placed : Placed
  depth : Int
  before : FrameFacts
  after : FrameFacts
  left : Int
  next : List Int

/-- Whether a visit is right about its instruction. -/
structure Visit.Valid (code : Bytes) (entry : Int) (blockWords : Nat) (v : Visit) : Prop where
  reached : Reached code entry v.placed
  mem : ∃ placed, decodeAll code = .ok placed ∧ v.placed ∈ placed
  effect : Effect blockWords v.before v.depth v.placed v.placed.instr (v.after, v.left)
  successors : successors code.length v.placed = .ok v.next
  depth : 0 ≤ v.depth
  wellFormed : v.before.WellFormed

/-- Whether an offset has been visited at a depth, knowing no more than some facts. -/
def Met (visits : List Visit) (offset depth : Int) (g : FrameFacts) : Prop :=
  ∃ v ∈ visits, (v.placed.offset : Int) = offset ∧ v.depth = depth ∧ v.before.Within g

/-- Whether visits cover all that control can do from an entry, and know on arrival only what is known on the way. -/
structure Chart (code : Bytes) (entry : Int) (blockWords : Nat) (visits : List Visit) : Prop where
  valid : ∀ v ∈ visits, v.Valid code entry blockWords
  start : Met visits entry 0 {}
  onward : ∀ v ∈ visits, ∀ o ∈ v.next, Met visits o v.left v.after

/-- Whether an offset has been visited as above, or is still to be visited when no more is known. -/
def Owed (visits : List Visit) (f : FrameFacts) (work : List (Int × Int)) (offset depth : Int) (g : FrameFacts) :
    Prop :=
  Met visits offset depth g ∨ (offset, depth) ∈ work ∧ f.Within g

/-- What is true while paths are followed. Only while a single path is left may the facts still grow. -/
structure Exploring (code : Bytes) (entry : Int) (blockWords : Nat) (visits : List Visit) (fresh : List Placed)
    (depths : List (Int × Int)) (f : FrameFacts) (work : List (Int × Int)) : Prop where
  decoded : ∃ placed, decodeAll code = .ok placed ∧ ∀ p ∈ fresh, p ∈ placed
  valid : ∀ v ∈ visits, v.Valid code entry blockWords
  seen : ∀ o d, depths.lookup o = some d → ∃ v ∈ visits, (v.placed.offset : Int) = o ∧ v.depth = d
  known : ∀ v ∈ visits, v.before.Within f
  wellFormed : f.WellFormed
  depth : ∀ x ∈ work, 0 ≤ x.2
  reached : ∀ x ∈ work, ∀ p ∈ fresh, (p.offset : Int) = x.1 → Reached code entry p
  single : work.length ≤ 1 ∨ ∀ x ∈ work, ∀ p ∈ fresh, (p.offset : Int) = x.1 → Branched code entry p
  start : Owed visits f work entry 0 {}
  onward : ∀ v ∈ visits, ∀ o ∈ v.next, Owed visits f work o v.left v.after

section
variable {code : Bytes} {entry : Int} {blockWords : Nat} {visits : List Visit} {fresh : List Placed}
  {depths rest : List (Int × Int)} {f : FrameFacts} {offset depth : Int}

/-- A path that leads to a visited instruction ends there. -/
theorem Exploring.skip (h : Exploring code entry blockWords visits fresh depths f ((offset, depth) :: rest))
    (hseen : depths.lookup offset = some depth) : Exploring code entry blockWords visits fresh depths f rest := by
  have howed {o d : Int} {g : FrameFacts} (ho : Owed visits f ((offset, depth) :: rest) o d g) :
      Owed visits f rest o d g := by
    rcases ho with hmet | ⟨hmem, hwithin⟩
    · exact .inl hmet
    · rcases List.mem_cons.mp hmem with heq | hmem
      · cases heq
        obtain ⟨v, hv, ho, hd⟩ := h.seen _ _ hseen
        exact .inl ⟨v, hv, ho, hd, (h.known v hv).trans hwithin⟩
      · exact .inr ⟨hmem, hwithin⟩
  exact
    { decoded := h.decoded
      valid := h.valid
      seen := h.seen
      known := h.known
      wellFormed := h.wellFormed
      depth := fun x hx => h.depth x (List.mem_cons_of_mem _ hx)
      reached := fun x hx => h.reached x (List.mem_cons_of_mem _ hx)
      single := by
        rcases h.single with hone | hbranched
        · left
          simp only [List.length_cons] at hone
          omega
        · exact .inr fun x hx => hbranched x (List.mem_cons_of_mem _ hx)
      start := howed h.start
      onward := fun v hv o ho => howed (h.onward v hv o ho) }

/-- A path goes on through an instruction that was not visited. -/
theorem Exploring.visit (hd : Disciplined code entry)
    (h : Exploring code entry blockWords visits fresh depths f ((offset, depth) :: rest)) {p : Placed}
    (hp : fresh.find? (fun p => p.offset == offset) = some p) {f' : FrameFacts} {left : Int}
    (heffect : effect blockWords f depth p = .ok (f', left)) {next : List Int}
    (hnext : successors code.length p = .ok next) :
    Exploring code entry blockWords (⟨p, depth, f, f', left, next⟩ :: visits) (fresh.erase p)
      ((offset, depth) :: depths) f' (next.map (·, left) ++ rest) := by
  obtain ⟨placed, hplaced, hsub⟩ := h.decoded
  have hpf : p ∈ fresh := List.mem_of_find?_eq_some hp
  have hoffset : (p.offset : Int) = offset := by simpa using List.find?_some hp
  have hreached : Reached code entry p := h.reached _ List.mem_cons_self p hpf hoffset
  have heff := effect_cases heffect
  obtain ⟨hwithin, hwell, hleft, hsame⟩ :=
    heff.facts (hd.regular p hreached) h.wellFormed (h.depth _ List.mem_cons_self)
  have hflows {q : Placed} (hq : q ∈ fresh.erase p) {o : Int} (ho : o ∈ next) (hqo : (q.offset : Int) = o) :
      Flows code p q :=
    ⟨⟨placed, hplaced, hsub p hpf, hsub q (List.mem_of_mem_erase hq)⟩, next, hnext, hqo ▸ ho⟩
  -- If other paths are left, this one is after a branch, so the facts do not grow here.
  have hrest : rest ≠ [] → f' = f := by
    intro hne
    rcases h.single with hone | hbranched
    · have := List.length_pos_iff.mpr hne
      simp only [List.length_cons] at hone
      omega
    · exact hsame (hd.settled p (hbranched _ List.mem_cons_self p hpf hoffset))
  have howed {o d : Int} {g : FrameFacts} (ho : Owed visits f ((offset, depth) :: rest) o d g) :
      Owed (⟨p, depth, f, f', left, next⟩ :: visits) f' (next.map (·, left) ++ rest) o d g := by
    rcases ho with ⟨v, hv, hmet⟩ | ⟨hmem, hg⟩
    · exact .inl ⟨v, List.mem_cons_of_mem _ hv, hmet⟩
    · rcases List.mem_cons.mp hmem with heq | hmem
      · cases heq
        exact .inl ⟨_, List.mem_cons_self, hoffset, rfl, hg⟩
      · rw [hrest (List.ne_nil_of_mem hmem)]
        exact .inr ⟨List.mem_append_right _ hmem, hg⟩
  refine
    { decoded := ⟨placed, hplaced, fun q hq => hsub q (List.mem_of_mem_erase hq)⟩
      valid := ?_
      seen := ?_
      known := ?_
      wellFormed := hwell
      depth := ?_
      reached := ?_
      single := ?_
      start := howed h.start
      onward := ?_ }
  · intro v hv
    rcases List.mem_cons.mp hv with rfl | hv
    · exact ⟨hreached, ⟨placed, hplaced, hsub p hpf⟩, heff, hnext, h.depth _ List.mem_cons_self, h.wellFormed⟩
    · exact h.valid v hv
  · intro o d hlookup
    rw [List.lookup_cons] at hlookup
    by_cases ho : o = offset
    · rw [ho, beq_self_eq_true] at hlookup
      cases hlookup
      exact ⟨_, List.mem_cons_self, hoffset.trans ho.symm, rfl⟩
    · rw [beq_eq_false_iff_ne.mpr ho] at hlookup
      obtain ⟨v, hv, hmet⟩ := h.seen o d hlookup
      exact ⟨v, List.mem_cons_of_mem _ hv, hmet⟩
  · intro v hv
    rcases List.mem_cons.mp hv with rfl | hv
    · exact hwithin
    · exact (h.known v hv).trans hwithin
  · intro x hx
    rcases List.mem_append.mp hx with hx | hx
    · obtain ⟨o, -, rfl⟩ := List.mem_map.mp hx
      exact hleft
    · exact h.depth x (List.mem_cons_of_mem _ hx)
  · intro x hx q hq hqx
    rcases List.mem_append.mp hx with hx | hx
    · obtain ⟨o, ho, rfl⟩ := List.mem_map.mp hx
      exact hreached.step (hflows hq ho hqx)
    · exact h.reached x (List.mem_cons_of_mem _ hx) q (List.mem_of_mem_erase hq) hqx
  · -- After a branch all paths are after a branch; before the first one there is a single path.
    have hafter (hbranch : ∀ q o, q ∈ fresh.erase p → o ∈ next → (q.offset : Int) = o → Branched code entry q)
        (hothers : ∀ x ∈ rest, ∀ q ∈ fresh, (q.offset : Int) = x.1 → Branched code entry q) :
        ∀ x ∈ next.map (·, left) ++ rest, ∀ q ∈ fresh.erase p, (q.offset : Int) = x.1 → Branched code entry q := by
      intro x hx q hq hqx
      rcases List.mem_append.mp hx with hx | hx
      · obtain ⟨o, ho, rfl⟩ := List.mem_map.mp hx
        exact hbranch q o hq ho hqx
      · exact hothers x hx q (List.mem_of_mem_erase hq) hqx
    rcases h.single with hone | hbranched
    · have hnil : rest = [] := by
        simp only [List.length_cons] at hone
        exact List.length_eq_zero_iff.mp (by omega)
      by_cases hjcc : ∃ c d, p.instr = .jcc c d
      · obtain ⟨c, d, hi⟩ := hjcc
        exact .inr (hafter (fun q o hq ho hqo => .taken hreached hi (hflows hq ho hqo)) (by simp [hnil]))
      · left
        rcases successors_cases hnext with ⟨-, rfl⟩ | ⟨d, -, rfl⟩ | ⟨c, d, hi, -⟩ | ⟨-, -, rfl⟩
        · simp [hnil]
        · simp [hnil]
        · exact absurd ⟨c, d, hi⟩ hjcc
        · simp [hnil]
    · have hp : Branched code entry p := hbranched _ List.mem_cons_self p hpf hoffset
      exact .inr (hafter (fun q o hq ho hqo => hp.step (hflows hq ho hqo))
        fun x hx => hbranched x (List.mem_cons_of_mem _ hx))
  · intro v hv o ho
    rcases List.mem_cons.mp hv with rfl | hv
    · exact .inr ⟨List.mem_append_left _ (List.mem_map.mpr ⟨o, ho, rfl⟩), .refl f'⟩
    · exact howed (h.onward v hv o ho)

/-- Paths that were followed to their ends make a chart. -/
theorem explore_charted (hd : Disciplined code entry) {work : List (Int × Int)}
    (h : Exploring code entry blockWords visits fresh depths f work)
    (hok : explore code.length blockWords fresh depths f work = .ok ()) :
    ∃ visits, Chart code entry blockWords visits := by
  fun_induction explore code.length blockWords fresh depths f work generalizing visits with
  | case1 fresh depths f =>
      have hmet {o d : Int} {g : FrameFacts} (ho : Owed visits f [] o d g) : Met visits o d g := by
        rcases ho with hmet | ⟨hmem, -⟩
        · exact hmet
        · cases hmem
      exact ⟨visits, h.valid, hmet h.start, fun v hv o ho => hmet (h.onward v hv o ho)⟩
  | case3 fresh depths f offset depth rest n hseen heq ih =>
      rw [not_not.mp heq] at hseen
      exact ih (h.skip hseen) hok
  | case7 fresh depths f offset depth rest hlookup p hp f' left heffect next hnext ih =>
      exact ih (h.visit hd hp heffect hnext) hok
  | _ => cases hok

theorem verify_charted {layout : Layout} (hd : Disciplined code entry) (h : verify code layout entry = .ok ()) :
    ∃ visits, Chart code entry (Frame.words layout.size) visits := by
  unfold verify at h
  split at h
  · cases h
  · cases h
  · rename_i placed hne hplaced
    have hstart : Exploring code entry (Frame.words layout.size) [] placed [] {} [(entry, 0)] := by
      refine ⟨⟨placed, hplaced, fun _ hp => hp⟩, by simp, by simp, by simp, ⟨by simp, le_refl 0, fun _ => rfl⟩, by simp,
        ?_, .inl (by simp), .inr ⟨List.mem_singleton.mpr rfl, .refl {}⟩, by simp⟩
      intro x hx p hp hpx
      obtain rfl := List.mem_singleton.mp hx
      exact .entry hplaced hp hpx
    exact explore_charted hd hstart h

end

end TierCalc.Routine.Verify
