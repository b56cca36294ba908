import TierCalc.Proofs.Routine.Patching
import TierCalc.Proofs.Routine.Simulation
import TierCalc.X64.Region

/-!
# Calls of routines

A routine that is entered with a block in `rdi` and a return address on top of the stack comes back to that address.
It has then answered what `Expr.backward` computes from the words of the block (`routine_answers`): the value in `rax`
and the store in the block, or a status in the block.

The run has four parts: `prologue_runs`, the body (`body_simulates`), `copyBack_runs`, and `epilogue_runs`, which is
all that is left when the body leaves early. Values enter and leave the frame by copying words, `copy_runs`.
-/

namespace TierCalc.Routine

open X64

section
variable {c : Setting} {s : State}

/-! ### Copying words -/

theorem copy_runs_one (ha : c.area.Sound) {via b b' : Reg} {o o' : Int32} {src dst : Place} (hb' : b' ≠ via)
    (hdst : c.area.Has dst) (hok : c.area.Allows (c.area.address dst)) (hfrom : s.address b o = c.area.address src)
    (hto : s.address b' o' = c.area.address dst)
    (hl : c.program.Holds s.pc [.load via b o, .store b' o' via]) :
    ∃ t, c.Runs 2 s t ∧ t.pc = s.pc + (Instr.load via b o).size + (Instr.store b' o' via).size ∧
      (∀ r, r ≠ via → t.reg r = s.reg r) ∧ word c.area t dst = word c.area s src ∧
      ∀ x, c.area.Has x → x ≠ dst → word c.area t x = word c.area s x := by
  obtain ⟨h1, h2, -⟩ := hl
  have r1 := Setting.runs_plain (c := c) h1 rfl (by simp) (exec_load _ _ s _ _ _)
  have hto' : ((s.goto (s.pc + (Instr.load via b o).size)).setReg via (s.load (s.address b o))).address b' o' =
      c.area.address dst := by
    rw [State.address, State.reg_setReg_of_ne _ hb']
    exact hto
  have r2 := r1.trans (Setting.runs_store h2 rfl (hto' ▸ hok) (exec_store _ _ _ _ _ _))
  rw [hto', State.reg_setReg_self, hfrom] at r2
  refine ⟨_, r2, by simp, ?_, ?_, ?_⟩
  · intro r hr
    rw [State.reg_store, State.reg_goto, State.reg_setReg_of_ne _ hr, State.reg_goto]
  · rw [word_store_self]
    rfl
  · intro x hx hne
    rw [word_store_of_ne _ ha hdst hx hne, word_goto, word_setReg, word_goto]

/-- The instructions that copy one word after another through a register. -/
def copies (via b b' : Reg) (o o' : Nat → Int32) (is : List Nat) : List Instr :=
  is.flatMap fun i => [.load via b (o i), .store b' (o' i) via]

/-- Words are copied if no place that is copied from is also copied to. -/
theorem copy_runs (ha : c.area.Sound) {via b b' : Reg} {o o' : Nat → Int32} {src dst : Nat → Place} (hb : b ≠ via)
    (hb' : b' ≠ via) (hinj : ∀ i j, dst i = dst j → i = j) (hne : ∀ i j, src i ≠ dst j) {is : List Nat}
    (hsrc : ∀ i ∈ is, c.area.Has (src i)) (hdst : ∀ i ∈ is, c.area.Has (dst i))
    (hok : ∀ i ∈ is, c.area.Allows (c.area.address (dst i)))
    (hfrom : ∀ i ∈ is, s.address b (o i) = c.area.address (src i))
    (hto : ∀ i ∈ is, s.address b' (o' i) = c.area.address (dst i))
    (hl : c.program.Holds s.pc (copies via b b' o o' is)) :
    ∃ t, c.Runs (copies via b b' o o' is).length s t ∧ t.pc = s.pc + sizeAll (copies via b b' o o' is) ∧
      (∀ r, r ≠ via → t.reg r = s.reg r) ∧ (∀ i ∈ is, word c.area t (dst i) = word c.area s (src i)) ∧
      ∀ x, c.area.Has x → (∀ i ∈ is, x ≠ dst i) → word c.area t x = word c.area s x := by
  induction is generalizing s with
  | nil => exact ⟨s, .refl s, by simp [copies, sizeAll], fun r _ => rfl, by simp, fun x _ _ => rfl⟩
  | cons i is ih =>
      simp only [List.forall_mem_cons] at hsrc hdst hok hfrom hto
      obtain ⟨t, r1, hpc, hregs, hcopied, hother⟩ :=
        copy_runs_one ha hb' hdst.1 hok.1 hfrom.1 hto.1 ⟨hl.1, hl.2.1, trivial⟩
      have hfrom' (j : Nat) (hj : j ∈ is) : t.address b (o j) = c.area.address (src j) := by
        rw [State.address, hregs b hb]
        exact hfrom.2 j hj
      have hto' (j : Nat) (hj : j ∈ is) : t.address b' (o' j) = c.area.address (dst j) := by
        rw [State.address, hregs b' hb']
        exact hto.2 j hj
      obtain ⟨u, r2, hpc', hregs', hcopied', hother'⟩ := ih hsrc.2 hdst.2 hok.2 hfrom' hto' (hpc ▸ hl.2.2)
      refine ⟨u, ?_, ?_, fun r hr => (hregs' r hr).trans (hregs r hr), ?_, ?_⟩
      · have r := r1.trans r2
        rwa [Nat.add_comm] at r
      · rw [hpc', hpc]
        simp only [copies, List.flatMap_cons, List.cons_append, List.nil_append, sizeAll, Int.natCast_add]
        omega
      · have htail (j : Nat) (hj : j ∈ is) : word c.area u (dst j) = word c.area s (src j) := by
          rw [hcopied' j hj, hother _ (hsrc.2 j hj) (hne j i)]
        rw [List.forall_mem_cons]
        refine ⟨?_, htail⟩
        by_cases hi : i ∈ is
        · exact htail i hi
        · rw [hother' _ hdst.1 fun j hj e => hi (hinj i j e ▸ hj), hcopied]
      · intro x hx hxne
        rw [List.forall_mem_cons] at hxne
        rw [hother' x hx hxne.2, hother x hx hxne.1]

/-! ### Entering and leaving -/

/-- What the instructions before the body do: the frame is set up, and the slots hold the values of the block. -/
structure Entered (a : Area) (s t : State) : Prop where
  frame : InFrame a 0 t
  regs : ∀ r, r ≠ .rax → r ≠ .rbp → r ≠ .rsp → t.reg r = s.reg r
  home : word a t (.stack 0) = word a s (.stack 0)
  saved : word a t (.stack 1) = s.reg .rbp
  block : ∀ i, a.Has (.block i) → word a t (.block i) = word a s (.block i)
  slots : ∀ i, i < a.slots → word a t (.stack (2 + i)) = word a s (.block (1 + 2 * i))

/-- The instructions that set up the frame. -/
def setup (slots : Nat) : List Instr :=
  [.push .rbp, .movReg .rbp .rsp] ++ if slots > 0 then [.subImm .rsp (Int32.ofNat (8 * slots))] else []

theorem save_runs (ha : c.area.Sound) (hsp : s.reg .rsp = c.area.top)
    (hl : c.program.Holds s.pc [.push .rbp, .movReg .rbp .rsp]) :
    ∃ t, c.Runs 2 s t ∧ t.pc = s.pc + (Instr.push .rbp).size + (Instr.movReg .rbp .rsp).size ∧
      t.reg .rbp = c.area.address (.stack 1) ∧ t.reg .rsp = c.area.address (.stack 1) ∧
      (∀ r, r ≠ .rbp → r ≠ .rsp → t.reg r = s.reg r) ∧ word c.area t (.stack 1) = s.reg .rbp ∧
      ∀ x, c.area.Has x → x ≠ .stack 1 → word c.area t x = word c.area s x := by
  obtain ⟨h1, h2, -⟩ := hl
  have htop : s.reg .rsp - 8 = c.area.address (.stack 1) := by
    rw [hsp]
    rfl
  have hhas : c.area.Has (.stack 1) := by
    simp only [Area.Has]
    omega
  have r1 := Setting.runs_store (c := c) h1 rfl (.inr ⟨1, le_rfl, hhas, htop⟩) (exec_push _ _ s _)
  have r2 := r1.trans (Setting.runs_plain (by simpa using h2) rfl (by simp) (exec_movReg _ _ _ _ _))
  rw [htop, State.reg_setReg_self] at r2
  refine ⟨_, r2, by simp, by simp, ?_, ?_, by simp, ?_⟩
  · rw [State.reg_setReg_of_ne _ (by decide), State.reg_goto, State.reg_setReg_self]
  · intro r h1 h2
    simp [State.reg_setReg_of_ne _ h1, State.reg_setReg_of_ne _ h2]
  · intro x hx h
    rw [word_setReg, word_goto, word_setReg, word_store_of_ne _ ha hhas hx h, word_goto]

theorem setup_runs (ha : c.area.Sound) (hdi : s.reg .rdi = c.area.block) (hsp : s.reg .rsp = c.area.top)
    (hl : c.program.Holds s.pc (setup c.area.slots)) :
    ∃ t, c.Runs (setup c.area.slots).length s t ∧ t.pc = s.pc + sizeAll (setup c.area.slots) ∧
      InFrame c.area 0 t ∧ (∀ r, r ≠ .rbp → r ≠ .rsp → t.reg r = s.reg r) ∧
      word c.area t (.stack 1) = s.reg .rbp ∧
      ∀ x, c.area.Has x → x ≠ .stack 1 → word c.area t x = word c.area s x := by
  obtain ⟨h1, h2, h3⟩ := hl
  obtain ⟨t, r1, hpc, hbp, hsp', hregs, hsaved, hother⟩ := save_runs ha hsp ⟨h1, h2, trivial⟩
  have hdi' := (hregs .rdi (by decide) (by decide)).trans hdi
  unfold setup
  split_ifs at h3 ⊢ with hpos
  · have r2 := r1.trans (Setting.runs_plain (by rw [hpc]; exact h3.1) rfl (by simp) (exec_subImm _ _ t _ _))
    have hmax : c.area.slots ≤ 32 := ha.slots_le
    have hrsp : t.reg .rsp - (Int32.ofNat (8 * c.area.slots)).toInt64 = c.area.address (.stack (1 + c.area.slots)) := by
      rw [hsp', toInt64_ofNat (by omega)]
      simp only [Area.address, Nat.mul_add, Int64.ofNat_add]
      grind
    rw [hrsp] at r2
    refine ⟨_, r2, ?_, ⟨?_, ?_, ?_, ?_⟩, ?_, ?_, ?_⟩
    · simp [hpc, sizeAll]
      omega
    · simp [State.reg_setReg_of_ne _ (show Reg.rbp ≠ .rsp by decide), hbp]
    · simp [State.reg_setReg_of_ne _ (show Reg.rdi ≠ .rsp by decide), hdi']
    · simp
    · omega
    · intro r h1 h2
      simp [State.reg_setReg_of_ne _ h2, hregs r h1 h2]
    · simpa using hsaved
    · intro x hx h
      simpa using hother x hx h
  · refine ⟨t, r1, ?_, ⟨hbp, hdi', ?_, ?_⟩, hregs, hsaved, hother⟩
    · simp [hpc, sizeAll]
      omega
    · rw [hsp']
      congr 2
      omega
    · omega

/-- The instructions before the body set up the frame. -/
theorem prologue_runs (ha : c.area.Sound) (hdi : s.reg .rdi = c.area.block) (hsp : s.reg .rsp = c.area.top)
    (hl : c.program.Holds s.pc (prologue c.area.slots)) :
    ∃ t, c.Runs (prologue c.area.slots).length s t ∧ t.pc = s.pc + sizeAll (prologue c.area.slots) ∧
      Entered c.area s t := by
  have hcode : prologue c.area.slots =
      setup c.area.slots ++ copies .rax .rdi .rbp valueOffset frameOffset (List.range c.area.slots) := rfl
  rw [hcode] at hl ⊢
  obtain ⟨hl1, hl2⟩ := Program.Holds.append hl
  obtain ⟨t, r1, hpc, hframe, hregs, hsaved, hother⟩ := setup_runs ha hdi hsp hl1
  have hmax := ha.slots_le
  have hsrc (i : Nat) (hi : i ∈ List.range c.area.slots) : c.area.Has (.block (1 + 2 * i)) := by
    simp only [List.mem_range, Area.Has, Frame.words] at *
    omega
  have hdst (i : Nat) (hi : i ∈ List.range c.area.slots) : c.area.Has (.stack (2 + i)) := by
    simp only [List.mem_range, Area.Has] at *
    omega
  obtain ⟨u, r2, hpc', hregs', hcopied, hother'⟩ :=
    copy_runs ha (by decide) (by decide) (by intro i j; simp) (by intro i j; simp) hsrc hdst
      (fun i hi => .inr ⟨2 + i, by omega, hdst i hi, rfl⟩)
      (fun i hi => hframe.address_value (Nat.lt_of_lt_of_le (List.mem_range.mp hi) hmax))
      (fun i hi => hframe.address_slot (Nat.lt_of_lt_of_le (List.mem_range.mp hi) hmax)) (hpc ▸ hl2)
  have hkeep {x : Place} (hx : c.area.Has x) (h : ∀ i, x ≠ .stack (1 + i)) : word c.area u x = word c.area s x := by
    rw [hother' x hx fun i _ e => h (1 + i) (by rw [e]; congr 1; omega), hother x hx (h 0)]
  refine ⟨u, ?_, ?_, ⟨?_, ?_, ?_, ?_⟩, ?_, ?_, ?_, ?_, ?_⟩
  · rw [List.length_append]
    exact r1.trans r2
  · rw [hpc', hpc, sizeAll_append, Int.natCast_add, Int.add_assoc]
  · rw [hregs' .rbp (by decide), hframe.rbp]
  · rw [hregs' .rdi (by decide), hframe.rdi]
  · rw [hregs' .rsp (by decide), hframe.rsp]
  · omega
  · intro r h1 h2 h3
    rw [hregs' r h1, hregs r h2 h3]
  · exact hkeep (by simp [Area.Has]) (by simp; omega)
  · rw [hother' _ (by simp only [Area.Has]; omega) (by simp; omega), hsaved]
  · intro i hi
    exact hkeep hi (by simp)
  · intro i hi
    rw [hcopied i (List.mem_range.mpr hi), hother _ (hsrc i (List.mem_range.mpr hi)) (by simp)]

theorem copyBack_runs (ha : c.area.Sound) (hf : InFrame c.area 0 s)
    (hl : c.program.Holds s.pc (copyBack c.area.slots)) :
    ∃ t, c.Runs (copyBack c.area.slots).length s t ∧ t.pc = s.pc + sizeAll (copyBack c.area.slots) ∧
      (∀ r, r ≠ .rcx → t.reg r = s.reg r) ∧
      (∀ i, i < c.area.slots → word c.area t (.block (1 + 2 * i)) = word c.area s (.stack (2 + i))) ∧
      ∀ x, c.area.Has x → (∀ i, x ≠ .block (1 + 2 * i)) → word c.area t x = word c.area s x := by
  have hmax := ha.slots_le
  have hsrc (i : Nat) (hi : i ∈ List.range c.area.slots) : c.area.Has (.stack (2 + i)) := by
    simp only [List.mem_range, Area.Has] at *
    omega
  have hdst (i : Nat) (hi : i ∈ List.range c.area.slots) : c.area.Has (.block (1 + 2 * i)) := by
    simp only [List.mem_range, Area.Has, Frame.words] at *
    omega
  obtain ⟨t, r, hpc, hregs, hcopied, hother⟩ :=
    copy_runs ha (by decide) (by decide) (by intro i j; simp) (by intro i j; simp) hsrc hdst
      (fun i hi => .inl ⟨1 + 2 * i, hdst i hi, rfl⟩)
      (fun i hi => hf.address_slot (Nat.lt_of_lt_of_le (List.mem_range.mp hi) hmax))
      (fun i hi => hf.address_value (Nat.lt_of_lt_of_le (List.mem_range.mp hi) hmax)) hl
  exact ⟨t, r, hpc, hregs, fun i hi => hcopied i (List.mem_range.mpr hi), fun x hx h => hother x hx fun i _ => h i⟩

theorem epilogue_runs (hbp : s.reg .rbp = c.area.address (.stack 1)) (hl : c.program.Holds s.pc epilogue) :
    ∃ t, c.Runs 2 s t ∧ c.program.fetch? t.pc = some (.ret, Instr.ret.size) ∧ t.reg .rsp = c.area.top ∧
      t.reg .rbp = word c.area s (.stack 1) ∧ (∀ r, r ≠ .rbp → r ≠ .rsp → t.reg r = s.reg r) ∧
      ∀ x, word c.area t x = word c.area s x := by
  obtain ⟨h1, h2, h3, -⟩ := hl
  have r1 := Setting.runs_plain (c := c) h1 rfl (by simp) (exec_movReg _ _ s _ _)
  have r2 := r1.trans (Setting.runs_plain h2 rfl (by simp) (exec_pop _ _ _ _))
  rw [State.reg_setReg_self, hbp] at r2
  refine ⟨_, r2, by simpa using h3, ?_, ?_, ?_, by simp⟩
  · rw [State.reg_setReg_of_ne _ (by decide), State.reg_setReg_self, Area.address_stack_pred, Area.address_stack_zero]
  · rw [State.reg_setReg_self]
    rfl
  · intro r h1 h2
    simp [State.reg_setReg_of_ne _ h1, State.reg_setReg_of_ne _ h2]

/-- What a caller finds as it left it. -/
structure Returns (s u : State) : Prop where
  rsp : u.reg .rsp = s.reg .rsp
  home : u.load (u.reg .rsp) = s.load (s.reg .rsp)
  regs : ∀ r, r ≠ .rax → r ≠ .rcx → r ≠ .rdx → u.reg r = s.reg r

/-- From the exit the routine returns, whether it got there early or not. -/
theorem exit_returns {t t' : State} (hsp : s.reg .rsp = c.area.top) (ht : Entered c.area s t)
    (hregs : ∀ r, r ≠ .rax → r ≠ .rcx → r ≠ .rdx → r ≠ .rsp → t'.reg r = t.reg r)
    (hsaved : ∀ j, j ≤ 1 → word c.area t' (.stack j) = word c.area t (.stack j))
    (hl : c.program.Holds t'.pc epilogue) :
    ∃ u, c.Runs 2 t' u ∧ c.program.fetch? u.pc = some (.ret, Instr.ret.size) ∧ Returns s u ∧
      u.reg .rax = t'.reg .rax ∧ ∀ x, word c.area u x = word c.area t' x := by
  have hbp := (hregs .rbp (by decide) (by decide) (by decide) (by decide)).trans ht.frame.rbp
  obtain ⟨u, r, hfetch, hsp', hbp', hregs', hw⟩ := epilogue_runs hbp hl
  refine ⟨u, r, hfetch, ⟨?_, ?_, ?_⟩, hregs' .rax (by decide) (by decide), hw⟩
  · rw [hsp', hsp]
  · rw [hsp', hsp, ← Area.address_stack_zero]
    exact (hw _).trans ((hsaved 0 (by omega)).trans ht.home)
  · intro q h1 h2 h3
    by_cases hq : q = .rbp
    · rw [hq, hbp', hsaved 1 le_rfl, ht.saved]
    · by_cases hq' : q = .rsp
      · rw [hq', hsp', hsp]
      · rw [hregs' q hq hq', hregs q h1 h2 h3 hq', ht.regs q h1 hq hq']

end

/-! ### Whole routines -/

/-- The memory of a call of a routine. -/
def callArea (r : Routine) (s : State) : Area := ⟨s.reg .rdi, s.reg .rsp, r.layout.size, r.depth⟩

/-- The store that a block holds. -/
def Store.ofBlock (a : Area) (names : List String) (s : State) : Store where
  value n := word a s (.block (1 + 2 * names.idxOf n))
  flag n := word a s (.block (2 + 2 * names.idxOf n))

/-- Whether a routine has answered as a computation ends: with a value and a store, or with a status. -/
def Answers (a : Area) (names : List String) (s u : State) : Outcome → Prop
  | (.ok v, σ) => u.reg .rax = v ∧ word a u (.block 0) = word a s (.block 0) ∧
      ∀ n ∈ names, word a u (.block (1 + 2 * names.idxOf n)) = σ.value n ∧
        word a u (.block (2 + 2 * names.idxOf n)) = σ.flag n
  | (.error status, _) => word a u (.block 0) = status.toInt64

section
variable {c : Setting} {s t : State}

/-- The frame starts with the store of the block. -/
theorem Entered.represents (hc : c.Fits) (ht : Entered c.area s t) :
    Represents c.area c.names (.ofBlock c.area c.names s) t := by
  intro n hn
  exact ⟨ht.slots _ (hc.slot_lt hn), ht.block _ (hc.has_flag hn)⟩

/-- A body that ends is followed by a return with its answer. -/
theorem answers_of_ends (hc : c.Fits) (hsp : s.reg .rsp = c.area.top) (ht : Entered c.area s t) {count : Nat}
    {stop : Int} {r : Outcome} (h : c.Ends 0 count stop t r)
    (hback : c.program.Holds stop (copyBack c.area.slots)) (hexit : stop + sizeAll (copyBack c.area.slots) = c.exit)
    (hl : c.program.Holds c.exit epilogue) :
    ∃ n u, n ≤ count + (copyBack c.area.slots).length + 2 ∧ c.Runs n t u ∧
      c.program.fetch? u.pc = some (.ret, Instr.ret.size) ∧ Returns s u ∧ Answers c.area c.names s u r := by
  obtain ⟨result, σ⟩ := r
  have hzero : c.area.Has (.block 0) := by simp [Area.Has, Frame.words]
  cases result with
  | ok v =>
      obtain ⟨n, t', hn, r1, rfl, hv, hp, hrep⟩ := h
      obtain ⟨t'', r2, hpc, hregs, hcopied, hother⟩ := copyBack_runs hc.sound (ht.frame.preserved hp) hback
      have hregs' (q : Reg) (h1 : q ≠ .rax) (h2 : q ≠ .rcx) (h3 : q ≠ .rdx) (_ : q ≠ .rsp) : t''.reg q = t.reg q :=
        (hregs q h2).trans (hp.regs q h1 h2 h3)
      have hsaved (j : Nat) (hj : j ≤ 1) : word c.area t'' (.stack j) = word c.area t (.stack j) :=
        (hother _ (by simp only [Area.Has]; omega) (by simp)).trans (hp.saved j hj)
      obtain ⟨u, r3, hfetch, hret, hax, hw⟩ := exit_returns hsp ht hregs' hsaved (by rwa [hpc, hexit])
      refine ⟨_, u, ?_, (r1.trans r2).trans r3, hfetch, hret, ?_, ?_, ?_⟩
      · omega
      · rw [hax, hregs .rax (by decide), hv]
      · rw [hw, hother _ hzero (by simp; omega), hp.status, ht.block _ hzero]
      · intro m hm
        obtain ⟨h1, h2⟩ := hrep m hm
        rw [hw, hw, hcopied _ (hc.slot_lt hm), hother _ (hc.has_flag hm) (by simp; omega)]
        exact ⟨h1, h2⟩
  | error status =>
      obtain ⟨n, t', hn, r1, hpc, hleaves⟩ := h
      obtain ⟨u, r2, hfetch, hret, -, hw⟩ := exit_returns hsp ht hleaves.regs hleaves.saved (by rwa [hpc])
      exact ⟨_, u, by omega, r1.trans r2, hfetch, hret, (hw _).trans hleaves.status⟩

end

theorem generate_bounds {e : Expr} {seeds : List String} {r : Routine} (h : generate e seeds = .ok r) :
    r.layout.size ≤ maxSlots ∧ r.depth ≤ maxDepth := by
  obtain ⟨ps, p, hb, hslots, rfl⟩ := generate_eq_ok h
  exact ⟨hslots, (body_grows hb).bounded (Nat.zero_le _)⟩

theorem callState_separate {e : Expr} {seeds : List String} {r : Routine} (h : generate e seeds = .ok r) (entry : Int)
    (frame : Frame) : (callArea r (callState entry frame)).Separate := by
  obtain ⟨hslots, hdepth⟩ := generate_bounds h
  intro i j hi hj
  simp only [Area.Has, callArea, Frame.words, maxSlots, maxDepth] at hslots hdepth hi hj
  unfold State.Apart
  rw [State.toNat_sub, State.toNat_sub, Area.toNat_block _ (by omega), Area.toNat_stack _ (by omega)]
  have hb : (callArea r (callState entry frame)).block.toUInt64.toNat = 0x10000000 := rfl
  have ht : (callArea r (callState entry frame)).top.toUInt64.toNat = 0x7FFF00000000 := rfl
  rw [hb, ht]
  omega

theorem length_close (ps : List Piece) : (close ps).length = ps.length := by
  induction ps with
  | nil => rfl
  | cons q ps ih => cases q <;> simp [close, ih]

/-- A routine returns with the answer that its expression, computed backward, has for the block. -/
theorem routine_answers {e : Expr} {seeds : List String} {r : Routine} (h : generate e seeds = .ok r)
    (hsize : r.size < 2 ^ 31) {s : State} (hpc : s.pc = r.entry) (hsep : (callArea r s).Separate) (home : Word) :
    ∃ is n u, r.code = encodeAll is ∧ (∀ i ∈ is, i.Encodable) ∧ n < is.length ∧
      Steps (.ofBytes r.code) home (Harmless (callArea r s).Allows) n s u ∧
      (Program.ofBytes r.code).fetch? u.pc = some (.ret, Instr.ret.size) ∧ Returns s u ∧
      Answers (callArea r s) r.layout.names s u (e.backward (.ofBlock (callArea r s) r.layout.names s)) := by
  obtain ⟨ps, p, hb, hslots, rfl⟩ := generate_eq_ok h
  have hencodable := assemble_encodable (body_encodable hb) p.names.length
  have grows := body_grows hb
  let c : Setting :=
    { program := .ofBytes (encodeAll (assemble p.names.length ps))
      home := home
      area := ⟨s.reg .rdi, s.reg .rsp, p.names.length, p.deepest⟩
      names := p.names
      exit := 0 + sizeAll (prologue p.names.length) + piecesSize (ps ++ pieces (copyBack p.names.length)) }
  have hc : c.Fits := ⟨⟨hslots, grows.bounded (Nat.zero_le _), hsep⟩, rfl⟩
  have htotal : piecesSize (ps ++ pieces (copyBack p.names.length)) < 2 ^ 31 := by
    simp only [Routine.size, length_encodeAll, assemble, sizeAll_append, sizeAll_close] at hsize
    omega
  obtain ⟨hl, hepilogue⟩ := (Program.holds_ofBytes hencodable).append
  obtain ⟨hprologue, hinner⟩ := hl.append
  have hlies := lies_close hinner htotal
  obtain ⟨hbody, hback⟩ := hlies.append
  rw [sizeAll_append, sizeAll_close, Int.natCast_add, ← Int.add_assoc] at hepilogue
  have hpc0 : s.pc = 0 := hpc
  obtain ⟨t, r1, hpct, hentered⟩ := prologue_runs (c := c) hc.sound rfl rfl (hpc0 ▸ hprologue)
  rw [hpc0] at hpct
  have hends := body_simulates hc hb (fun n hn => hn) List.prefix_rfl le_rfl
    (by rw [piecesSize_append] at htotal; omega) hentered.frame (hpct ▸ hbody) (hentered.represents hc)
  have hstop : t.pc + piecesSize ps + sizeAll (copyBack p.names.length) = c.exit := by
    simp only [c, hpct, piecesSize_append, piecesSize_pieces]
    omega
  obtain ⟨n, u, hn, r2, hfetch, hret, hanswers⟩ :=
    answers_of_ends hc rfl hentered hends (by rw [hpct]; exact hback.holds) hstop hepilogue
  refine ⟨_, _, u, rfl, hencodable, ?_, r1.trans r2, hfetch, hret, hanswers⟩
  simp only [assemble, List.length_append, length_close, pieces, List.length_map, epilogue, List.length_cons,
    List.length_nil, c] at hn ⊢
  omega

end TierCalc.Routine
