import TierCalc.Proofs.Routine.Area
import TierCalc.Proofs.Routine.Backward
import TierCalc.Proofs.Routine.Pieces

/-!
# How pieces of code end

What is shown of every piece of a routine's body.

* `Lies p exit pc ps` places pieces in a program; their jumps to the exit lead to the offset `exit`.
* `Represents a names σ s` says that the slots of the frame hold the store.
* `Ends` says that a run ends as a computation does: at the end of the code with the value in `rax`, the store in the
  slots and the rest of the frame intact (`Preserves`), or at the exit with the status in the block (`Leaves`).
-/

namespace TierCalc.Routine

open X64

/-! ### Pieces in their place -/

/-- Whether pieces stand one after another in a program and jump to an exit. -/
def Lies (p : Program) (exit : Int) : Int → List Piece → Prop
  | _, [] => True
  | pc, .instr i :: ps => p.fetch? pc = some (i, i.size) ∧ Lies p exit (pc + i.size) ps
  | pc, .exit :: ps =>
      (∃ d, p.fetch? pc = some (.jmp d, (Instr.jmp d).size) ∧ pc + (Instr.jmp d).size + d.toInt = exit) ∧
        Lies p exit (pc + Piece.exit.size) ps

section
variable {p : Program} {exit pc : Int}

theorem Lies.append {ps qs : List Piece} (h : Lies p exit pc (ps ++ qs)) :
    Lies p exit pc ps ∧ Lies p exit (pc + piecesSize ps) qs := by
  induction ps generalizing pc with
  | nil => simpa [Lies, piecesSize] using h
  | cons q ps ih =>
      cases q with
      | instr i =>
          obtain ⟨h1, h2⟩ := ih h.2
          refine ⟨⟨h.1, h1⟩, ?_⟩
          rw [piecesSize, Int.natCast_add, ← Int.add_assoc]
          exact h2
      | exit =>
          obtain ⟨h1, h2⟩ := ih h.2
          refine ⟨⟨h.1, h1⟩, ?_⟩
          rw [piecesSize, Int.natCast_add, ← Int.add_assoc]
          exact h2

theorem Lies.holds {is : List Instr} (h : Lies p exit pc (pieces is)) : p.Holds pc is := by
  induction is generalizing pc with
  | nil => trivial
  | cons i is ih => exact ⟨h.1, ih h.2⟩

theorem toInt_ofNat {n : Nat} (h : n < 2 ^ 31) : (Int32.ofNat n).toInt = n := by
  rw [← Int32.ofInt_eq_ofNat, Int32.toInt_ofInt_of_le] <;> omega

theorem lies_close {ps : List Piece} (h : p.Holds pc (close ps)) (hs : piecesSize ps < 2 ^ 31) :
    Lies p (pc + piecesSize ps) pc ps := by
  induction ps generalizing pc with
  | nil => trivial
  | cons q ps ih =>
      rw [piecesSize] at hs
      have e : pc + ((q.size + piecesSize ps : Nat) : Int) = pc + q.size + piecesSize ps := by omega
      rw [piecesSize, e]
      cases q with
      | instr i => exact ⟨h.1, ih h.2 (by omega)⟩
      | exit =>
          refine ⟨⟨_, h.1, ?_⟩, ih h.2 (by omega)⟩
          rw [toInt_ofNat (by omega)]
          rfl

end

/-! ### What a run leaves alone -/

/-- Whether the slots of the frame and the words beside them in the block hold a store. -/
def Represents (a : Area) (names : List String) (σ : Store) (s : State) : Prop :=
  ∀ n ∈ names, word a s (.stack (2 + names.idxOf n)) = σ.value n ∧
    word a s (.block (2 + 2 * names.idxOf n)) = σ.flag n

/-- What code that runs through leaves alone: all registers but three, the saved words, the operands below it and the
status. -/
structure Preserves (a : Area) (depth : Nat) (s t : State) : Prop where
  regs : ∀ r, r ≠ .rax → r ≠ .rcx → r ≠ .rdx → t.reg r = s.reg r
  saved : ∀ j, j ≤ 1 → word a t (.stack j) = word a s (.stack j)
  operands : ∀ j, 2 + a.slots ≤ j → j ≤ 1 + a.slots + depth → word a t (.stack j) = word a s (.stack j)
  status : word a t (.block 0) = word a s (.block 0)

/-- What code that leaves early leaves alone, and the status that it sets. -/
structure Leaves (a : Area) (status : Int32) (s t : State) : Prop where
  regs : ∀ r, r ≠ .rax → r ≠ .rcx → r ≠ .rdx → r ≠ .rsp → t.reg r = s.reg r
  saved : ∀ j, j ≤ 1 → word a t (.stack j) = word a s (.stack j)
  status : word a t (.block 0) = status.toInt64

section
variable {a : Area} {depth depth' : Nat} {status : Int32} {s t u : State} {names : List String} {σ : Store}

theorem Represents.of_word (h : Represents a names σ s) (hw : ∀ x, word a t x = word a s x) :
    Represents a names σ t := by
  intro n hn
  rw [hw, hw]
  exact h n hn

theorem Preserves.of_word (hr : ∀ r, r ≠ .rax → r ≠ .rcx → r ≠ .rdx → t.reg r = s.reg r)
    (hw : ∀ x, word a t x = word a s x) : Preserves a depth s t :=
  ⟨hr, fun _ _ => hw _, fun _ _ _ => hw _, hw _⟩

theorem Preserves.trans (h : Preserves a depth s t) (h' : Preserves a depth t u) : Preserves a depth s u where
  regs r h1 h2 h3 := (h'.regs r h1 h2 h3).trans (h.regs r h1 h2 h3)
  saved j hj := (h'.saved j hj).trans (h.saved j hj)
  operands j h1 h2 := (h'.operands j h1 h2).trans (h.operands j h1 h2)
  status := h'.status.trans h.status

theorem Preserves.leaves (h : Preserves a depth s t) (h' : Leaves a status t u) : Leaves a status s u where
  regs r h1 h2 h3 h4 := (h'.regs r h1 h2 h3 h4).trans (h.regs r h1 h2 h3)
  saved j hj := (h'.saved j hj).trans (h.saved j hj)
  status := h'.status

/-- The frame is still there after code that ran through. -/
theorem InFrame.preserved (hf : InFrame a depth s) (h : Preserves a depth' s t) : InFrame a depth t where
  rbp := (h.regs .rbp (by decide) (by decide) (by decide)).trans hf.rbp
  rdi := (h.regs .rdi (by decide) (by decide) (by decide)).trans hf.rdi
  rsp := (h.regs .rsp (by decide) (by decide) (by decide)).trans hf.rsp
  room := hf.room

end

/-! ### Endings -/

/-- Where a piece of code stands and how its run is watched: the program, the caller's address, the memory of the
call, the names with a slot, and the offset of the exit. -/
structure Setting where
  program : Program
  home : Word
  area : Area
  names : List String
  exit : Int

namespace Setting

/-- A run that stores and divides only as a routine may. -/
def Runs (c : Setting) : Nat → State → State → Prop := Steps c.program c.home (Harmless c.area.Allows)

/-- Whether a run from a state ends as a computation does, within a number of steps: at an offset or at the exit. -/
def Ends (c : Setting) (depth count : Nat) (stop : Int) (s : State) : Outcome → Prop
  | (.ok v, σ) => ∃ n t, n ≤ count ∧ c.Runs n s t ∧ t.pc = stop ∧ t.reg .rax = v ∧ Preserves c.area depth s t ∧
      Represents c.area c.names σ t
  | (.error status, _) => ∃ n t, n ≤ count ∧ c.Runs n s t ∧ t.pc = c.exit ∧ Leaves c.area status s t

variable {c : Setting} {depth count m : Nat} {stop : Int} {s t : State} {r : Outcome}

theorem Runs.trans {n : Nat} {u : State} (h : c.Runs m s t) (h' : c.Runs n t u) : c.Runs (m + n) s u :=
  Steps.trans h h'

/-- One instruction that stores nothing and does not divide. -/
theorem runs_plain {i : Instr} (hf : c.program.fetch? s.pc = some (i, i.size)) (hs : i.storesAt? s = none)
    (hd : ∀ r, i ≠ .idiv r) (he : exec c.home (s.pc + i.size) i s = .running t) : c.Runs 1 s t :=
  .single hf ⟨fun a ha => absurd (hs.symm.trans ha) (by simp), fun r hr => absurd hr (hd r)⟩ he

theorem runs_store {i : Instr} {x : Word} (hf : c.program.fetch? s.pc = some (i, i.size))
    (hs : i.storesAt? s = some x) (hx : c.area.Allows x) (he : exec c.home (s.pc + i.size) i s = .running t) :
    c.Runs 1 s t := by
  refine .single hf ⟨fun a ha => ?_, fun r hr => ?_⟩ he
  · rw [hs] at ha
    exact Option.some.inj ha ▸ hx
  · rw [hr] at hs
    cases hs

/-- A condition is computed and a branch taken on it; nothing changes but the flags and the counter. -/
theorem runs_branch {i : Instr} {f : Flags} {cond : Cond} {d : Int32}
    (hl : Lies c.program c.exit s.pc (pieces [i, .jcc cond d])) (hs : i.storesAt? s = none)
    (hd : ∀ r, i ≠ .idiv r) (he : ∀ after, exec c.home after i s = .running ((s.goto after).setFlags f)) :
    c.Runs 2 s ((s.setFlags f).goto (s.pc + sizeAll [i, .jcc cond d] + if f.holds cond then d.toInt else 0)) := by
  obtain ⟨h1, h2, -⟩ := hl
  refine (runs_plain h1 hs hd (he _)).trans (runs_plain h2 rfl (by simp) ?_)
  rw [exec_jcc]
  change Next.running ((s.setFlags f).goto (if f.holds cond then _ else _)) = _
  congr 2
  simp only [State.pc_setFlags, State.pc_goto, sizeAll]
  split_ifs <;> omega

/-- Code that changes no word of the call and leaves a value in `rax`. -/
theorem Ends.of_word {n : Nat} {v : Word} {σ : Store} (hr : c.Runs n s t) (hn : n ≤ count) (hpc : t.pc = stop)
    (hv : t.reg .rax = v) (hregs : ∀ r, r ≠ .rax → r ≠ .rcx → r ≠ .rdx → t.reg r = s.reg r)
    (hw : ∀ x, word c.area t x = word c.area s x) (hrep : Represents c.area c.names σ s) :
    c.Ends depth count stop s (.ok v, σ) :=
  ⟨n, t, hn, hr, hpc, hv, .of_word hregs hw, hrep.of_word hw⟩

/-- Code that runs through may be put in front of other code. -/
theorem Ends.prepend (hr : c.Runs m s t) (hp : Preserves c.area depth s t) (h : c.Ends depth count stop t r) :
    c.Ends depth (m + count) stop s r := by
  obtain ⟨result, σ⟩ := r
  cases result with
  | ok v =>
      obtain ⟨n, u, hn, hu, hpc, hv, hp', hrep⟩ := h
      exact ⟨m + n, u, by omega, hr.trans hu, hpc, hv, hp.trans hp', hrep⟩
  | error status =>
      obtain ⟨n, u, hn, hu, hpc, hl⟩ := h
      exact ⟨m + n, u, by omega, hr.trans hu, hpc, hp.leaves hl⟩

theorem Ends.mono {count' : Nat} (h : c.Ends depth count stop s r) (hc : count ≤ count') :
    c.Ends depth count' stop s r := by
  obtain ⟨result, σ⟩ := r
  cases result with
  | ok v =>
      obtain ⟨n, u, hn, h⟩ := h
      exact ⟨n, u, hn.trans hc, h⟩
  | error status =>
      obtain ⟨n, u, hn, h⟩ := h
      exact ⟨n, u, hn.trans hc, h⟩

/-- Code may be followed by other code, which starts with the value and the store. -/
theorem Ends.andThen {mid : Int} {count' : Nat} {next : Word → Store → Outcome} (h : c.Ends depth count mid s r)
    (hnext : ∀ v σ t, t.pc = mid → t.reg .rax = v → Preserves c.area depth s t → Represents c.area c.names σ t →
      c.Ends depth count' stop t (next v σ)) : c.Ends depth (count + count') stop s (r.andThen next) := by
  obtain ⟨result, σ⟩ := r
  cases result with
  | ok v =>
      obtain ⟨n, t, hn, hr, hpc, hv, hp, hrep⟩ := h
      exact (Ends.prepend hr hp (hnext v σ t hpc hv hp hrep)).mono (by omega)
  | error status =>
      obtain ⟨n, t, hn, h⟩ := h
      exact ⟨n, t, by omega, h⟩

theorem Ends.jump {stop' : Int} {d : Int32} (h : c.Ends depth count stop s r)
    (hj : c.program.fetch? stop = some (.jmp d, (Instr.jmp d).size))
    (hd : stop + (Instr.jmp d).size + d.toInt = stop') : c.Ends depth (count + 1) stop' s r := by
  obtain ⟨result, σ⟩ := r
  cases result with
  | ok v =>
      obtain ⟨n, u, hn, hu, rfl, hv, hp, hrep⟩ := h
      have r := runs_plain (c := c) hj rfl (by simp) (exec_jmp _ _ u d)
      exact ⟨n + 1, _, by omega, hu.trans r, hd, hv, hp.trans (.of_word (fun _ _ _ _ => rfl) fun _ => rfl),
        hrep.of_word fun _ => rfl⟩
  | error status =>
      obtain ⟨n, u, hn, h⟩ := h
      exact ⟨n, u, by omega, h⟩

end Setting

end TierCalc.Routine
