import Mathlib.Data.List.Basic
import TierCalc.Proofs.Routine.Body
import TierCalc.Proofs.Routine.Operators

/-!
# The machine computes what the code means

Code of an expression, wherever it stands in a program, ends as `Expr.backward` does (`body_simulates`), in no more
steps than it has instructions. The induction follows the expression; what a node adds to its parts is shown first:
assignments (`assign_ends`), operands on the stack (`pushed`, `popped`) and choices (`choice_ends`).
-/

namespace TierCalc.Routine

open X64

/-! ### Slots of names -/

theorem idxOf_eq_idxOf {names all : List String} {n : String} (h : names <+: all) (hn : n ∈ names) :
    names.idxOf n = all.idxOf n := by
  obtain ⟨rest, rfl⟩ := h
  rw [List.idxOf_append_of_mem hn]

section
variable {c : Setting} {depth : Nat} {s t : State} {σ : Store}

/-- Whether the names are those of the area's slots. -/
structure Setting.Fits (c : Setting) : Prop where
  sound : c.area.Sound
  length : c.names.length = c.area.slots

theorem Setting.Fits.slot_lt (hc : c.Fits) {n : String} (hn : n ∈ c.names) : c.names.idxOf n < c.area.slots := by
  rw [← hc.length]
  exact List.idxOf_lt_length_of_mem hn

theorem Setting.Fits.slot_lt_max (hc : c.Fits) {n : String} (hn : n ∈ c.names) : c.names.idxOf n < maxSlots :=
  Nat.lt_of_lt_of_le (hc.slot_lt hn) hc.sound.slots_le

theorem Setting.Fits.has_slot (hc : c.Fits) {n : String} (hn : n ∈ c.names) :
    c.area.Has (.stack (2 + c.names.idxOf n)) := by
  have := hc.slot_lt hn
  simp only [Area.Has]
  omega

theorem Setting.Fits.has_flag (hc : c.Fits) {n : String} (hn : n ∈ c.names) :
    c.area.Has (.block (2 + 2 * c.names.idxOf n)) := by
  have := hc.slot_lt hn
  simp only [Area.Has, Frame.words]
  omega

/-! ### Assignments -/

/-- The two stores of an assignment. -/
def assigned (a : Area) (slot : Nat) (v : Word) (s : State) : State :=
  (s.store (a.address (.stack (2 + slot))) v).store (a.address (.block (2 + 2 * slot))) 1

theorem word_assigned (ha : c.area.Sound) {slot : Nat} (hs : slot < c.area.slots) {x : Place} (hx : c.area.Has x)
    (v : Word) : word c.area (assigned c.area slot v s) x =
      if x = .stack (2 + slot) then v else if x = .block (2 + 2 * slot) then 1 else word c.area s x := by
  have h1 : c.area.Has (.stack (2 + slot)) := by simp only [Area.Has]; omega
  have h2 : c.area.Has (.block (2 + 2 * slot)) := by simp only [Area.Has, Frame.words]; omega
  unfold assigned
  split_ifs with e1 e2
  · subst e1
    rw [word_store_of_ne _ ha h2 h1 (by simp), word_store_self]
  · subst e2
    rw [word_store_self]
  · rw [word_store_of_ne _ ha h2 hx e2, word_store_of_ne _ ha h1 hx e1]

theorem Represents.assign (hc : c.Fits) (h : Represents c.area c.names σ s) {name : String} (hn : name ∈ c.names)
    (v : Word) : Represents c.area c.names (σ.assign name v) (assigned c.area (c.names.idxOf name) v s) := by
  intro n hmem
  rw [word_assigned hc.sound (hc.slot_lt hn) (hc.has_slot hmem),
    word_assigned hc.sound (hc.slot_lt hn) (hc.has_flag hmem)]
  by_cases e : n = name
  · subst e
    simp [Store.assign]
  · have hne : c.names.idxOf n ≠ c.names.idxOf name := fun h => e ((List.idxOf_inj hmem).mp h)
    have h' := h n hmem
    simp only [Store.assign, if_neg e]
    rw [if_neg (by simpa using hne), if_neg (by simp), if_neg (by simp), if_neg (by simpa using hne)]
    exact h'

/-- The code of an assignment puts `rax` into a variable's slot and marks it. -/
theorem assign_ends (hc : c.Fits) (hf : InFrame c.area depth s) {name : String} (hn : name ∈ c.names)
    (hl : Lies c.program c.exit s.pc (pieces [.store .rbp (frameOffset (c.names.idxOf name)) .rax,
      .storeImm .rdi (flagOffset (c.names.idxOf name)) 1])) (hrep : Represents c.area c.names σ s) :
    c.Ends depth 2 (s.pc + sizeAll [.store .rbp (frameOffset (c.names.idxOf name)) .rax,
      .storeImm .rdi (flagOffset (c.names.idxOf name)) 1]) s
      (.ok (s.reg .rax), σ.assign name (s.reg .rax)) := by
  obtain ⟨h1, h2, -⟩ := hl
  have hlt := hc.slot_lt hn
  have hs := hf.address_slot (hc.slot_lt_max hn)
  have hb := hf.address_flag (hc.slot_lt_max hn)
  have r1 := Setting.runs_store (c := c) h1 rfl (.inr ⟨_, by omega, hc.has_slot hn, hs⟩) (exec_store _ _ s _ _ _)
  rw [hs] at r1
  rw [State.store_goto] at r1
  have hb' : ((s.store (c.area.address (.stack (2 + c.names.idxOf name))) (s.reg .rax)).goto
      (s.pc + (Instr.store .rbp (frameOffset (c.names.idxOf name)) .rax).size)).address .rdi
        (flagOffset (c.names.idxOf name)) = c.area.address (.block (2 + 2 * c.names.idxOf name)) := by
    rw [← hb]
    simp [State.address]
  have r2 := r1.trans (Setting.runs_store (by simpa using h2) rfl (.inl ⟨_, hc.has_flag hn, hb'⟩)
    (exec_storeImm _ _ _ _ _ _))
  rw [hb', State.goto_goto, State.store_goto] at r2
  have hword {x : Place} (hx : c.area.Has x) (h1 : x ≠ .stack (2 + c.names.idxOf name))
      (h2 : x ≠ .block (2 + 2 * c.names.idxOf name)) :
      word c.area (assigned c.area (c.names.idxOf name) (s.reg .rax) s) x = word c.area s x := by
    rw [word_assigned hc.sound hlt hx, if_neg h1, if_neg h2]
  have hroom := hf.room
  refine ⟨2, _, le_rfl, r2, ?_, ?_, ⟨?_, ?_, ?_, ?_⟩, ?_⟩
  · simp only [State.pc_goto, sizeAll]
    omega
  · simp
  · simp
  · intro j hj
    exact hword (by simp only [Area.Has]; omega) (by simp; omega) (by simp)
  · intro j h1 h2
    exact hword (by simp only [Area.Has]; omega) (by simp; omega) (by simp)
  · exact hword (by simp [Area.Has, Frame.words]) (by simp) (by simp; omega)
  · exact hrep.assign hc hn _

/-! ### Operands on the stack -/

theorem pushed (hc : c.Fits) (hf : InFrame c.area depth s) (hd : depth + 1 ≤ c.area.operands)
    (hl : c.program.fetch? s.pc = some (.push .rax, (Instr.push .rax).size)) (hrep : Represents c.area c.names σ s) :
    ∃ t, c.Runs 1 s t ∧ t.pc = s.pc + (Instr.push .rax).size ∧ InFrame c.area (depth + 1) t ∧
      word c.area t (.stack (2 + c.area.slots + depth)) = s.reg .rax ∧ Represents c.area c.names σ t ∧
      (∀ r, r ≠ .rsp → t.reg r = s.reg r) ∧
      ∀ x, c.area.Has x → x ≠ .stack (2 + c.area.slots + depth) → word c.area t x = word c.area s x := by
  have htop : s.reg .rsp - 8 = c.area.address (.stack (2 + c.area.slots + depth)) := by
    rw [hf.rsp, ← Area.address_stack_succ]
    congr 2
    omega
  have hhas : c.area.Has (.stack (2 + c.area.slots + depth)) := by
    simp only [Area.Has]
    omega
  have r := Setting.runs_store (c := c) hl rfl (.inr ⟨_, by omega, hhas, htop⟩) (exec_push _ _ s _)
  rw [htop] at r
  have hother (x : Place) (hx : c.area.Has x) (h : x ≠ .stack (2 + c.area.slots + depth)) :
      word c.area (((s.goto (s.pc + (Instr.push .rax).size)).store
        (c.area.address (.stack (2 + c.area.slots + depth))) (s.reg .rax)).setReg .rsp
        (c.area.address (.stack (2 + c.area.slots + depth)))) x = word c.area s x := by
    rw [word_setReg, word_store_of_ne _ hc.sound hhas hx h, word_goto]
  refine ⟨_, r, by simp, ⟨?_, ?_, ?_, hd⟩, by simp, ?_, ?_, hother⟩
  · rw [State.reg_setReg_of_ne _ (by decide), State.reg_store, State.reg_goto, hf.rbp]
  · rw [State.reg_setReg_of_ne _ (by decide), State.reg_store, State.reg_goto, hf.rdi]
  · rw [State.reg_setReg_self]
    congr 2
    omega
  · intro n hn
    have hlt := hc.slot_lt hn
    rw [hother _ (hc.has_slot hn) (by simp; omega), hother _ (hc.has_flag hn) (by simp)]
    exact hrep n hn
  · intro r hr
    rw [State.reg_setReg_of_ne _ hr, State.reg_store, State.reg_goto]

theorem popped (hf : InFrame c.area (depth + 1) s)
    (hl : c.program.fetch? s.pc = some (.pop .rcx, (Instr.pop .rcx).size)) :
    ∃ t, c.Runs 1 s t ∧ t.pc = s.pc + (Instr.pop .rcx).size ∧
      t.reg .rsp = c.area.address (.stack (1 + c.area.slots + depth)) ∧
      t.reg .rcx = word c.area s (.stack (2 + c.area.slots + depth)) ∧
      (∀ r, r ≠ .rsp → r ≠ .rcx → t.reg r = s.reg r) ∧ ∀ x, word c.area t x = word c.area s x := by
  have htop : s.reg .rsp = c.area.address (.stack (2 + c.area.slots + depth)) := by
    rw [hf.rsp]
    congr 2
    omega
  have r := Setting.runs_plain (c := c) hl rfl (by simp) (exec_pop _ _ s _)
  refine ⟨_, r, by simp, ?_, ?_, ?_, by simp⟩
  · have e : 2 + c.area.slots + depth = 1 + c.area.slots + depth + 1 := by omega
    rw [State.reg_setReg_of_ne _ (by decide), State.reg_setReg_self, htop, e, Area.address_stack_pred]
  · rw [State.reg_setReg_self, htop]
    rfl
  · intro r h1 h2
    rw [State.reg_setReg_of_ne _ h2, State.reg_setReg_of_ne _ h1, State.reg_goto]

/-- While code runs behind a pushed operand, the operand stays where it is, and `rcx` has it in the end. -/
theorem left_runs (hc : c.Fits) (hf : InFrame c.area depth s) (hd : depth + 1 ≤ c.area.operands)
    (hpush : c.program.fetch? s.pc = some (.push .rax, (Instr.push .rax).size)) {stop : Int}
    (hpop : c.program.fetch? stop = some (.pop .rcx, (Instr.pop .rcx).size)) (hrep : Represents c.area c.names σ s)
    {count : Nat} {x : Word} {σ' : Store}
    (hleft : ∀ t, t.pc = s.pc + (Instr.push .rax).size → InFrame c.area (depth + 1) t →
      Represents c.area c.names σ t → c.Ends (depth + 1) count stop t (.ok x, σ')) :
    ∃ n u, n ≤ count + 2 ∧ c.Runs n s u ∧ u.pc = stop + (Instr.pop .rcx).size ∧ u.reg .rax = x ∧
      u.reg .rcx = s.reg .rax ∧ Preserves c.area depth s u ∧ Represents c.area c.names σ' u := by
  obtain ⟨t, r1, hpc, hf', htop, hrep', hregs, hother⟩ := pushed hc hf hd hpush hrep
  obtain ⟨n, t', hn, r2, hpc', hx, hp, hrep''⟩ := hleft t hpc hf' hrep'
  obtain ⟨u, r3, hpc'', hsp, hcx, hregs', hw⟩ := popped (hf'.preserved hp) (hpc' ▸ hpop)
  have hroom := hf.room
  refine ⟨1 + n + 1, u, by omega, (r1.trans r2).trans r3, by rw [hpc'', hpc'], ?_, ?_, ⟨?_, ?_, ?_, ?_⟩,
    hrep''.of_word hw⟩
  · rw [hregs' .rax (by decide) (by decide), hx]
  · rw [hcx, hp.operands _ (by omega) (by omega), htop]
  · intro r h1 h2 h3
    by_cases h : r = .rsp
    · subst h
      rw [hsp, hf.rsp]
    · rw [hregs' r h h2, hp.regs r h1 h2 h3, hregs r h]
  · intro j hj
    rw [hw, hp.saved j hj, hother _ (by simp only [Area.Has]; omega) (by simp; omega)]
  · intro j h1 h2
    rw [hw, hp.operands j h1 (by omega), hother _ (by simp only [Area.Has]; omega) (by simp; omega)]
  · rw [hw, hp.status, hother _ (by simp [Area.Has, Frame.words]) (by simp)]

/-- Code that leaves from behind a pushed operand leaves as it does otherwise. -/
theorem left_leaves (hc : c.Fits) (hf : InFrame c.area depth s) (hd : depth + 1 ≤ c.area.operands)
    (hpush : c.program.fetch? s.pc = some (.push .rax, (Instr.push .rax).size)) {stop stop' : Int}
    (hrep : Represents c.area c.names σ s) {count : Nat} {status : Int32} {σ' : Store}
    (hleft : ∀ t, t.pc = s.pc + (Instr.push .rax).size → InFrame c.area (depth + 1) t →
      Represents c.area c.names σ t → c.Ends (depth + 1) count stop t (.error status, σ')) :
    c.Ends depth (count + 1) stop' s (.error status, σ') := by
  obtain ⟨t, r1, hpc, hf', -, hrep', hregs, hother⟩ := pushed hc hf hd hpush hrep
  obtain ⟨n, u, hn, r2, hpc', hleaves⟩ := hleft t hpc hf' hrep'
  refine ⟨1 + n, u, by omega, r1.trans r2, hpc', ?_, ?_, hleaves.status⟩
  · intro r h1 h2 h3 h4
    rw [hleaves.regs r h1 h2 h3 h4, hregs r h4]
  · intro j hj
    rw [hleaves.saved j hj, hother _ (by simp only [Area.Has]; omega) (by simp; omega)]

/-! ### Choices -/

theorem piecesSize_choicePieces (yes no : List Piece) :
    piecesSize (choicePieces yes no) =
      sizeAll [.test .rax .rax,
        .jcc .equal (Int32.ofNat (piecesSize yes + (Instr.jmp (Int32.ofNat (piecesSize no))).size))]
        + piecesSize yes + sizeAll [.jmp (Int32.ofNat (piecesSize no))] + piecesSize no := by
  simp only [choicePieces, piecesSize_append, piecesSize_pieces]

/-- A test of `rax` goes on behind it, or further if the word is zero. -/
theorem test_runs {d : Nat} (hd : d < 2 ^ 31)
    (hl : Lies c.program c.exit s.pc (pieces [.test .rax .rax, .jcc .equal (Int32.ofNat d)])) :
    ∃ t, c.Runs 2 s t ∧ (∀ r, t.reg r = s.reg r) ∧ (∀ x, word c.area t x = word c.area s x) ∧
      t.pc = s.pc + sizeAll [.test .rax .rax, .jcc .equal (Int32.ofNat d)] + if s.reg .rax == 0 then (d : Int) else 0 := by
  have hz : (Flags.ofResult ((s.reg .rax).toUInt64 &&& (s.reg .rax).toUInt64).toInt64 false false).holds .equal
      = (s.reg .rax == 0) := by
    rw [Flags.holds_equal, Flags.zero_ofResult_self]
  have hrun := Setting.runs_branch hl rfl (by simp) (fun after => exec_test _ after s _ _)
  rw [hz, toInt_ofNat hd] at hrun
  exact ⟨_, hrun, fun r => rfl, fun x => rfl, rfl⟩

theorem choice_ends {yes no : List Piece} (hl : Lies c.program c.exit s.pc (choicePieces yes no))
    (hsize : piecesSize (choicePieces yes no) < 2 ^ 31) (hrep : Represents c.area c.names σ s)
    {ry rn : Outcome}
    (hyes : ∀ t, Preserves c.area depth s t → Represents c.area c.names σ t → Lies c.program c.exit t.pc yes →
      c.Ends depth yes.length (t.pc + piecesSize yes) t ry)
    (hno : ∀ t, Preserves c.area depth s t → Represents c.area c.names σ t → Lies c.program c.exit t.pc no →
      c.Ends depth no.length (t.pc + piecesSize no) t rn) :
    c.Ends depth (choicePieces yes no).length (s.pc + piecesSize (choicePieces yes no)) s
      (if s.reg .rax ≠ 0 then ry else rn) := by
  let skip := Instr.jmp (Int32.ofNat (piecesSize no))
  let branch := Instr.jcc .equal (Int32.ofNat (piecesSize yes + skip.size))
  have hsum : piecesSize (choicePieces yes no) =
      sizeAll [.test .rax .rax, branch] + piecesSize yes + sizeAll [skip] + piecesSize no :=
    piecesSize_choicePieces yes no
  have hlen : (choicePieces yes no).length = 3 + yes.length + no.length := by
    simp only [choicePieces, pieces, List.length_append, List.length_map, List.length_cons, List.length_nil]
    omega
  obtain ⟨hl, hlno⟩ := Lies.append hl
  obtain ⟨hl, hlskip⟩ := Lies.append hl
  obtain ⟨hltest, hlyes⟩ := Lies.append hl
  simp only [piecesSize_append, piecesSize_pieces] at hlno hlskip hlyes
  have hs1 : sizeAll [skip] = skip.size := rfl
  have hdistance : piecesSize yes + skip.size < 2 ^ 31 := by omega
  obtain ⟨t, r1, hregs, hw, hpc⟩ := test_runs hdistance hltest
  change t.pc = s.pc + sizeAll [.test .rax .rax, branch] + _ at hpc
  have hp : Preserves c.area depth s t := .of_word (fun r _ _ _ => hregs r) hw
  rw [hsum, hlen]
  split_ifs with h
  · rw [beq_eq_false_iff_ne.mpr h, if_neg (by decide), Int.add_zero] at hpc
    have hends := hyes t hp (hrep.of_word hw) (hpc ▸ hlyes)
    rw [hpc] at hends
    have hjump := hends.jump (by simpa only [Int.natCast_add, Int.add_assoc] using hlskip.1) rfl
    rw [toInt_ofNat (by omega)] at hjump
    have hall := hjump.prepend r1 hp
    have hstop : s.pc + sizeAll [.test .rax .rax, branch] + piecesSize yes + skip.size + piecesSize no =
        s.pc + ((sizeAll [.test .rax .rax, branch] + piecesSize yes + sizeAll [skip] + piecesSize no : Nat) : Int) := by
      omega
    rw [hstop] at hall
    exact hall.mono (by omega)
  · have h0 : s.reg .rax = 0 := by simpa using h
    rw [beq_iff_eq.mpr h0, if_pos rfl] at hpc
    have hpc' : t.pc = s.pc + ((sizeAll [.test .rax .rax, branch] + piecesSize yes + sizeAll [skip] : Nat) : Int) := by
      omega
    have hall := (hno t hp (hrep.of_word hw) (hpc' ▸ hlno)).prepend r1 hp
    have hstop : t.pc + piecesSize no =
        s.pc + ((sizeAll [.test .rax .rax, branch] + piecesSize yes + sizeAll [skip] + piecesSize no : Nat) : Int) := by
      omega
    rw [hstop] at hall
    exact hall.mono (by omega)

end

/-! ### Expressions -/

/-- The code of an expression ends as the expression does, computed backward. -/
theorem body_simulates {c : Setting} (hc : c.Fits) {e : Expr} {depth : Nat} {p p' : Progress} {ps : List Piece}
    (h : body depth e p = .ok (ps, p')) (hclosed : p.defined ⊆ p.names) (hnames : p'.names <+: c.names)
    (hdeep : p'.deepest ≤ c.area.operands) (hsize : piecesSize ps < 2 ^ 31) {s : State} {σ : Store}
    (hf : InFrame c.area depth s) (hl : Lies c.program c.exit s.pc ps) (hrep : Represents c.area c.names σ s) :
    c.Ends depth ps.length (s.pc + piecesSize ps) s (e.backward σ) := by
  induction e using Expr.nodeInduction generalizing depth p p' ps s σ with
  | int pos literal v =>
      obtain ⟨rfl, -⟩ := body_int h
      exact Setting.ends_single hl (by unfold Instr.mov; split_ifs <;> rfl)
        (by unfold Instr.mov; split_ifs <;> simp) (fun after => exec_mov _ after s _ _) hrep
  | ident pos name =>
      obtain ⟨hd, rfl, rfl⟩ := body_ident h
      have hmem : name ∈ c.names := hnames.subset (hclosed hd)
      rw [idxOf_eq_idxOf hnames (hclosed hd)] at hl ⊢
      have hv : s.load (s.address .rbp (frameOffset (c.names.idxOf name))) = σ.value name := by
        rw [hf.address_slot (hc.slot_lt_max hmem)]
        exact (hrep name hmem).1
      rw [Expr.backward, ← hv]
      exact Setting.ends_single hl rfl (by simp) (fun after => exec_load _ after s _ _ _) hrep
  | binary l pos op r ihl ihr =>
      obtain ⟨o, right, left, q, ho, -, hr, -, hlb, rfl⟩ := body_binary h
      have gl := body_grows hlb
      have hd : depth + 1 ≤ c.area.operands := (le_max_right _ _).trans (gl.deepest.trans hdeep)
      obtain ⟨hl, hlop⟩ := hl.append
      obtain ⟨hl, hlpop⟩ := hl.append
      obtain ⟨hl, hlleft⟩ := hl.append
      obtain ⟨hlright, hlpush⟩ := hl.append
      simp only [piecesSize_append, piecesSize_pieces, Int.natCast_add, ← Int.add_assoc] at hlop hlpop hlleft
      simp only [piecesSize_append, piecesSize_pieces] at hsize
      have hends := ihr hr hclosed (gl.names.trans hnames) ((le_max_left _ _).trans (gl.deepest.trans hdeep))
        (by omega) hf hlright hrep
      simp only [Expr.backward, ho, piecesSize_append, piecesSize_pieces, List.length_append, Int.natCast_add,
        ← Int.add_assoc, Nat.add_assoc]
      refine hends.andThen fun y σ t hpc hy hp hrep' => ?_
      have hft := hf.preserved hp
      have hleft (u : State) (hu : u.pc = t.pc + (Instr.push .rax).size) (hf' : InFrame c.area (depth + 1) u)
          (hrep'' : Represents c.area c.names σ u) :
          c.Ends (depth + 1) left.length (t.pc + (Instr.push .rax).size + piecesSize left) u (l.backward σ) := by
        rw [← hu]
        refine ihl hlb ((body_grows hr).closed hclosed) hnames hdeep (by omega) hf' ?_ hrep''
        rw [hu, hpc]
        exact hlleft
      rw [← hpc] at hlpush hlpop hlop ⊢
      rcases hres : l.backward σ with ⟨status | x, σ'⟩
      · rw [hres] at hleft
        exact (left_leaves hc hft hd hlpush.1 hrep' hleft).mono (by simp [pieces]; omega)
      · rw [hres] at hleft
        obtain ⟨n, u, hn, hrun, hpcu, rfl, hcx, hpu, hrepu⟩ :=
          left_runs hc hft hd hlpush.1 hlpop.1 hrep' hleft
        have hop := operator_ends hc.sound (hft.preserved hpu) (hpcu ▸ hlop) hrepu
        rw [hpcu, hcx, hy] at hop
        exact (hop.prepend hrun hpu).mono (by simp [pieces]; omega)
  | assign pos name eqPos v ih =>
      obtain ⟨value, q, hv, -, rfl, rfl⟩ := body_assign h
      have hmem : name ∈ c.names := hnames.subset (mem_add.mpr (.inr rfl))
      rw [idxOf_eq_idxOf hnames (mem_add.mpr (.inr rfl))] at hl hsize ⊢
      obtain ⟨hlv, hlstore⟩ := hl.append
      rw [piecesSize_append] at hsize
      have hends := ih hv hclosed ((prefix_add _ _).trans hnames) hdeep (by omega) hf hlv hrep
      rw [Expr.backward, piecesSize_append, List.length_append, Int.natCast_add, ← Int.add_assoc]
      refine hends.andThen fun x σ t hpc hx hp hrep' => ?_
      rw [← hx, ← hpc, piecesSize_pieces]
      exact assign_ends hc (hf.preserved hp) hmem (hpc ▸ hlstore) hrep'
  | call pos name lparen args rparen _ => exact absurd h body_call
  | cond pos lparen b y n rparen ihb ihy ihn =>
      obtain ⟨test, yes, no, q₁, q₂, q₃, hb, hy, hn, rfl, rfl⟩ := body_cond h
      obtain ⟨hlb, hlc⟩ := hl.append
      rw [piecesSize_append] at hsize
      have gb := body_grows hb
      have gy := body_grows hy
      have gn := body_grows hn
      have hends := ihb hb hclosed (gy.names.trans (gn.names.trans hnames))
        ((gy.deepest.trans gn.deepest).trans hdeep) (by omega) hf hlb hrep
      rw [Expr.backward, piecesSize_append, List.length_append, Int.natCast_add, ← Int.add_assoc]
      refine hends.andThen fun x σ t hpc hx hp hrep' => ?_
      rw [← hpc, ← hx]
      have hft := hf.preserved hp
      have hsum := piecesSize_choicePieces yes no
      refine choice_ends (hpc ▸ hlc) (by omega) hrep' ?_ ?_
      · intro u hpu hrepu hlu
        exact ihy hy (gb.closed hclosed) (gn.names.trans hnames) (gn.deepest.trans hdeep) (by omega)
          (hft.preserved hpu) hlu hrepu
      · intro u hpu hrepu hlu
        exact ihn hn (fun m hm => gy.names.subset (gb.closed hclosed hm)) hnames hdeep (by omega)
          (hft.preserved hpu) hlu hrepu

end TierCalc.Routine
