import TierCalc.Proofs.Routine.Outcome
import TierCalc.Proofs.X64.Arithmetic

/-!
# The code of operators

The code of an operator ends as the operator does on `rax` and `rcx` (`operator_ends`). Arithmetic and comparisons run
through; division by zero leaves through the exit, and the machine's own division is only met by divisors other than
zero and minus one, for which it is division of integers.
-/

namespace TierCalc.Routine

open X64

namespace Setting

variable {c : Setting} {depth : Nat} {s : State} {σ : Store} {x y : Word}

theorem ends_single {i : Instr} {v : Word} {f : Flags} (hl : Lies c.program c.exit s.pc (pieces [i]))
    (hs : i.storesAt? s = none) (hd : ∀ r, i ≠ .idiv r)
    (he : ∀ after, exec c.home after i s = .running (((s.goto after).setReg .rax v).setFlags f))
    (hrep : Represents c.area c.names σ s) :
    c.Ends depth 1 (s.pc + piecesSize (pieces [i])) s (.ok v, σ) := by
  refine .of_word (runs_plain hl.1 hs hd (he _)) le_rfl ?_ ?_ ?_ ?_ hrep
  · simp [piecesSize_pieces, sizeAll]
  · simp
  · intro r h1 _ _
    simp [State.reg_setReg_of_ne _ h1]
  · simp

/-- A comparison leaves one or zero. -/
theorem comparison_ends {cond : Cond} {b : Bool} (hl : Lies c.program c.exit s.pc (comparisonPieces cond))
    (hb : (Flags.ofDifference (s.reg .rax) (s.reg .rcx)).holds cond = b) (hrep : Represents c.area c.names σ s) :
    c.Ends depth 3 (s.pc + piecesSize (comparisonPieces cond)) s (.ok (Operator.truth b), σ) := by
  obtain ⟨h1, h2, h3, -⟩ := hl
  have r1 := runs_plain (c := c) h1 rfl (by simp) (exec_cmp _ _ s .rax .rcx)
  have r2 := r1.trans (runs_plain h2 rfl (by simp) (exec_setcc _ _ _ cond .rax))
  have r3 := r2.trans (runs_plain h3 rfl (by simp) (exec_movzx _ _ _ .rax .rax))
  simp only [State.flags_setFlags, hb] at r3
  refine .of_word r3 le_rfl ?_ ?_ ?_ ?_ hrep
  · simp only [State.pc_setReg, State.pc_goto, State.pc_setByte, State.pc_setFlags, comparisonPieces,
      piecesSize_pieces, sizeAll]
    omega
  · rw [State.reg_setReg_self, State.getByte_setByte_rax]
  · intro r h1 _ _
    simp [State.reg_setReg_of_ne _ h1, State.reg_setByte_of_ne _ h1]
  · simp

/-! ### Division -/

/-- The pieces for a zero divisor. -/
def leavePieces (isModulo : Bool) (depth : Nat) : List Piece :=
  pieces ((if depth > 0 then [.addImm .rsp (Int32.ofNat (8 * depth))] else [])
    ++ [.storeImm .rdi 0 (statusOf isModulo)]) ++ [.exit]

/-- The instruction for the divisor minus one. -/
def byMinusOne (isModulo : Bool) : Instr := if isModulo then .xor32 .rax .rax else .neg .rax

/-- The instructions for all other divisors. -/
def byOther (isModulo : Bool) : List Instr := [.cqo, .idiv .rcx] ++ if isModulo then [.movReg .rax .rdx] else []

/-- The jump over the instructions for all other divisors. -/
def overOther (isModulo : Bool) : Instr := .jmp (Int32.ofNat (sizeAll (byOther isModulo)))

theorem divisionPieces_eq (isModulo : Bool) (depth : Nat) :
    divisionPieces isModulo depth =
      pieces [.test .rcx .rcx, .jcc .notEqual (Int32.ofNat (piecesSize (leavePieces isModulo depth)))]
        ++ (leavePieces isModulo depth
        ++ (pieces [.cmpImm .rcx (-1),
            .jcc .notEqual (Int32.ofNat (sizeAll [byMinusOne isModulo, overOther isModulo]))]
        ++ (pieces [byMinusOne isModulo, overOther isModulo] ++ pieces (byOther isModulo)))) := by
  simp only [divisionPieces, leavePieces, byMinusOne, overOther, byOther, pieces, List.map_append, List.append_assoc]
  rfl

theorem piecesSize_leavePieces (isModulo : Bool) (depth : Nat) : piecesSize (leavePieces isModulo depth) < 2 ^ 31 := by
  rw [leavePieces, piecesSize_append, piecesSize_pieces]
  split_ifs
  · exact (by decide : 23 < 2 ^ 31)
  · exact (by decide : 16 < 2 ^ 31)

theorem sizeAll_byMinusOne (isModulo : Bool) : sizeAll [byMinusOne isModulo, overOther isModulo] < 2 ^ 31 := by
  cases isModulo <;> decide

theorem sizeAll_byOther (isModulo : Bool) : sizeAll (byOther isModulo) < 2 ^ 31 := by
  cases isModulo <;> decide

variable {isModulo : Bool}

theorem leave_ends (ha : c.area.Sound) (hf : InFrame c.area depth s)
    (hl : Lies c.program c.exit s.pc (leavePieces isModulo depth)) {stop : Int} :
    c.Ends depth (leavePieces isModulo depth).length stop s (.error (statusOf isModulo), σ) := by
  obtain ⟨m, t, hm, hr, hl, hregs, hw⟩ : ∃ m t, m + 2 ≤ (leavePieces isModulo depth).length ∧ c.Runs m s t ∧
      Lies c.program c.exit t.pc (pieces [.storeImm .rdi 0 (statusOf isModulo)] ++ [.exit]) ∧
      (∀ r, r ≠ .rsp → t.reg r = s.reg r) ∧ ∀ x, word c.area t x = word c.area s x := by
    unfold leavePieces at hl ⊢
    split_ifs at hl ⊢
    · exact ⟨1, _, le_rfl, runs_plain hl.1 rfl (by simp) (exec_addImm _ _ s _ _), hl.2,
        fun r hr => by simp [State.reg_setReg_of_ne _ hr], by simp⟩
    · exact ⟨0, s, le_rfl, .refl s, hl, fun r _ => rfl, fun x => rfl⟩
  obtain ⟨h1, ⟨d, h2, hd⟩, -⟩ := hl
  have hstatus : t.address .rdi 0 = c.area.address (.block 0) := by
    rw [State.address, hregs .rdi (by decide)]
    exact hf.address_status
  have hhas : c.area.Has (.block 0) := by
    simp [Area.Has, Frame.words]
  have r1 := runs_store (c := c) h1 rfl (.inl ⟨0, hhas, hstatus⟩) (exec_storeImm _ _ t _ _ _)
  have r2 := (hr.trans r1).trans (runs_plain (by simpa using h2) rfl (by simp) (exec_jmp _ _ _ d))
  refine ⟨_, _, by omega, r2, ?_, ?_, ?_, ?_⟩
  · simpa using hd
  · intro r _ _ _ h
    simp [hregs r h]
  · intro j hj
    rw [word_goto, hstatus, word_store_of_ne _ ha hhas (by simp only [Area.Has]; omega) (by simp), word_goto, hw]
  · rw [word_goto, hstatus, word_store_self]

theorem runs_zero (hl : Lies c.program c.exit s.pc (divisionPieces isModulo depth)) (hy : s.reg .rcx = 0) :
    ∃ t, c.Runs 2 s t ∧ (∀ r, t.reg r = s.reg r) ∧ (∀ x, word c.area t x = word c.area s x) ∧
      Lies c.program c.exit t.pc (leavePieces isModulo depth) := by
  rw [divisionPieces_eq] at hl
  obtain ⟨h1, hl⟩ := hl.append
  obtain ⟨h2, -⟩ := hl.append
  have hz : (Flags.ofResult ((s.reg .rcx).toUInt64 &&& (s.reg .rcx).toUInt64).toInt64 false false).holds .notEqual
      = false := by
    rw [Flags.holds_notEqual, Flags.zero_ofResult_self]
    simpa using hy
  have r1 := runs_branch h1 rfl (by simp) (fun after => exec_test _ after s _ _)
  rw [hz, if_neg (by decide), Int.add_zero] at r1
  rw [piecesSize_pieces] at h2
  exact ⟨_, r1, fun r => rfl, fun x => rfl, h2⟩

theorem runs_nonzero (hl : Lies c.program c.exit s.pc (divisionPieces isModulo depth)) (hy : s.reg .rcx ≠ 0) :
    ∃ t, c.Runs 4 s t ∧ (∀ r, t.reg r = s.reg r) ∧ (∀ x, word c.area t x = word c.area s x) ∧
      if s.reg .rcx = -1 then
        Lies c.program c.exit t.pc (pieces [byMinusOne isModulo, overOther isModulo]) ∧
          t.pc + sizeAll [byMinusOne isModulo, overOther isModulo] + sizeAll (byOther isModulo) =
            s.pc + piecesSize (divisionPieces isModulo depth)
      else
        Lies c.program c.exit t.pc (pieces (byOther isModulo)) ∧
          t.pc + sizeAll (byOther isModulo) = s.pc + piecesSize (divisionPieces isModulo depth) := by
  rw [divisionPieces_eq] at hl ⊢
  obtain ⟨h1, hl⟩ := hl.append
  obtain ⟨-, hl⟩ := hl.append
  obtain ⟨h3, hl⟩ := hl.append
  obtain ⟨h4, h5⟩ := hl.append
  have hz : (Flags.ofResult ((s.reg .rcx).toUInt64 &&& (s.reg .rcx).toUInt64).toInt64 false false).holds .notEqual
      = true := by
    rw [Flags.holds_notEqual, Flags.zero_ofResult_self]
    simpa using hy
  have r1 := runs_branch h1 rfl (by simp) (fun after => exec_test _ after s _ _)
  rw [hz, if_pos rfl, toInt_ofNat (piecesSize_leavePieces _ _)] at r1
  simp only [piecesSize_pieces] at h3 h4 h5
  have r2 := r1.trans (runs_branch h3 rfl (by simp) (fun after => exec_cmpImm _ after _ _ _))
  refine ⟨_, r2, fun r => rfl, fun x => rfl, ?_⟩
  have hm : (Flags.ofDifference (s.reg .rcx) (-1 : Int8).toInt64).holds .notEqual = !(s.reg .rcx == -1) := by
    rw [Flags.holds_notEqual, Flags.zero_ofDifference]
    rfl
  simp only [State.pc_goto, State.reg_goto, State.reg_setFlags, piecesSize_append, piecesSize_pieces, hm,
    toInt_ofNat (sizeAll_byMinusOne _), Int.natCast_add]
  by_cases h : s.reg .rcx = -1
  · rw [if_pos h, beq_iff_eq.mpr h]
    exact ⟨by simpa using h4, by simp; omega⟩
  · rw [if_neg h, beq_eq_false_iff_ne.mpr h]
    exact ⟨h5, by simp; omega⟩

theorem minusOne_ends (hl : Lies c.program c.exit s.pc (pieces [byMinusOne isModulo, overOther isModulo]))
    (hrep : Represents c.area c.names σ s) :
    c.Ends depth 2 (s.pc + sizeAll [byMinusOne isModulo, overOther isModulo] + sizeAll (byOther isModulo)) s
      (.ok (if isModulo then 0 else -(s.reg .rax)), σ) := by
  obtain ⟨h1, h2, -⟩ := hl
  obtain ⟨f, he⟩ : ∃ f, exec c.home (s.pc + (byMinusOne isModulo).size) (byMinusOne isModulo) s =
      .running (((s.goto (s.pc + (byMinusOne isModulo).size)).setReg .rax
        (if isModulo then 0 else -(s.reg .rax))).setFlags f) := by
    cases isModulo with
    | false => exact ⟨_, exec_neg _ _ s .rax⟩
    | true => exact ⟨_, exec_xor32_self _ _ s .rax⟩
  have r1 := runs_plain (c := c) h1 (by cases isModulo <;> rfl) (by cases isModulo <;> simp [byMinusOne]) he
  have r2 := r1.trans (runs_plain h2 rfl (by simp [overOther]) (exec_jmp _ _ _ _))
  refine .of_word r2 le_rfl ?_ ?_ ?_ ?_ hrep
  · simp only [State.pc_goto, State.pc_setFlags, State.pc_setReg, toInt_ofNat (sizeAll_byOther _), sizeAll]
    omega
  · simp
  · intro r h _ _
    simp [State.reg_setReg_of_ne _ h]
  · simp

theorem other_ends (hl : Lies c.program c.exit s.pc (pieces (byOther isModulo))) (h0 : s.reg .rcx ≠ 0)
    (hm : s.reg .rcx ≠ -1) (hrep : Represents c.area c.names σ s) :
    c.Ends depth (byOther isModulo).length (s.pc + sizeAll (byOther isModulo)) s
      (.ok (if isModulo then s.reg .rax % s.reg .rcx else s.reg .rax / s.reg .rcx), σ) := by
  obtain ⟨h1, h2, h3⟩ := hl
  let t := (s.goto (s.pc + Instr.cqo.size)).setReg .rdx (if s.reg .rax < 0 then -1 else 0)
  have r1 : c.Runs 1 s t := runs_plain h1 rfl (by simp) (exec_cqo _ _ s)
  have hax : t.reg .rax = s.reg .rax := State.reg_setReg_of_ne _ (by decide) _
  have hcx : t.reg .rcx = s.reg .rcx := State.reg_setReg_of_ne _ (by decide) _
  have hdiv : divide (t.reg .rdx) (t.reg .rax) (t.reg .rcx) =
      some (s.reg .rax / s.reg .rcx, s.reg .rax % s.reg .rcx) := by
    rw [hax, hcx, State.reg_setReg_self]
    exact divide_signExtended h0 hm
  have hdivides (r : Reg) (hr : Instr.idiv .rcx = .idiv r) :
      t.reg r ≠ 0 ∧ ¬ (t.reg .rax = Int64.minValue ∧ t.reg r = -1) := by
    cases hr
    rw [hcx]
    exact ⟨h0, fun h => hm h.2⟩
  have r2 := r1.trans (.single h2 ⟨by simp [Instr.storesAt?], hdivides⟩ (exec_idiv _ _ t hdiv))
  have hne : Reg.rax ≠ Reg.rdx := by decide
  cases isModulo with
  | false =>
      refine .of_word r2 le_rfl ?_ ?_ ?_ ?_ hrep
      · simp [t, byOther, sizeAll]
        omega
      · simp [State.reg_setReg_of_ne _ hne]
      · intro r hr _ hr'
        simp [t, State.reg_setReg_of_ne _ hr, State.reg_setReg_of_ne _ hr']
      · simp [t]
  | true =>
      have r3 := r2.trans (runs_plain h3.1 rfl (by simp) (exec_movReg _ _ _ _ _))
      refine .of_word r3 le_rfl ?_ ?_ ?_ ?_ hrep
      · simp [t, byOther, sizeAll]
        omega
      · simp
      · intro r hr _ hr'
        simp [t, State.reg_setReg_of_ne _ hr, State.reg_setReg_of_ne _ hr']
      · simp [t]

theorem length_divisionPieces (isModulo : Bool) (depth : Nat) :
    (divisionPieces isModulo depth).length = 6 + (leavePieces isModulo depth).length + (byOther isModulo).length := by
  rw [divisionPieces_eq]
  simp only [pieces, List.length_append, List.length_map, List.length_cons, List.length_nil]
  omega

/-- Division ends as the operator does. -/
theorem division_ends (ha : c.area.Sound) (hf : InFrame c.area depth s)
    (hl : Lies c.program c.exit s.pc (divisionPieces isModulo depth)) (hrep : Represents c.area c.names σ s) :
    c.Ends depth (divisionPieces isModulo depth).length (s.pc + piecesSize (divisionPieces isModulo depth)) s
      (applied (if isModulo then .modulo else .divide) (s.reg .rax) (s.reg .rcx), σ) := by
  have hlen := length_divisionPieces isModulo depth
  by_cases h0 : s.reg .rcx = 0
  · obtain ⟨t, hr, hregs, hw, hl⟩ := runs_zero hl h0
    have hp : Preserves c.area depth s t := .of_word (fun r _ _ _ => hregs r) hw
    have hv : applied (if isModulo then .modulo else .divide) (s.reg .rax) (s.reg .rcx) =
        .error (statusOf isModulo) := by
      cases isModulo with
      | false =>
          simp only [applied, Operator.apply, h0]
          rfl
      | true =>
          simp only [applied, Operator.apply, h0]
          rfl
    rw [hv]
    exact (Ends.prepend hr hp (leave_ends ha (hf.preserved hp) hl)).mono (by omega)
  · obtain ⟨t, hr, hregs, hw, hl⟩ := runs_nonzero hl h0
    have hp : Preserves c.area depth s t := .of_word (fun r _ _ _ => hregs r) hw
    have hv : applied (if isModulo then .modulo else .divide) (s.reg .rax) (s.reg .rcx) =
        .ok (if isModulo then s.reg .rax % s.reg .rcx else s.reg .rax / s.reg .rcx) := by
      cases isModulo <;> simp [applied, Operator.apply, h0]
    rw [hv]
    split_ifs at hl with hm
    · obtain ⟨hl, hpc⟩ := hl
      have h : c.Ends depth 2 _ t _ := minusOne_ends hl (hrep.of_word hw)
      rw [hpc, hregs] at h
      rw [hm, mod_neg_one, div_neg_one]
      have h' := Ends.prepend hr hp h
      exact h'.mono (by omega)
    · obtain ⟨hl, hpc⟩ := hl
      have h : c.Ends depth _ _ t _ := other_ends hl (by rwa [hregs]) (by rwa [hregs]) (hrep.of_word hw)
      rw [hpc, hregs, hregs] at h
      have h' := Ends.prepend hr hp h
      exact h'.mono (by omega)

end Setting

open Setting in
/-- The code of an operator ends as the operator does. -/
theorem operator_ends {c : Setting} {depth : Nat} {s : State} {σ : Store} (ha : c.area.Sound)
    (hf : InFrame c.area depth s) {o : Operator} (hl : Lies c.program c.exit s.pc (operatorPieces depth o))
    (hrep : Represents c.area c.names σ s) :
    c.Ends depth (operatorPieces depth o).length (s.pc + piecesSize (operatorPieces depth o)) s
      (applied o (s.reg .rax) (s.reg .rcx), σ) := by
  cases o with
  | add => exact ends_single hl rfl (by simp) (fun after => exec_add _ after s _ _) hrep
  | subtract => exact ends_single hl rfl (by simp) (fun after => exec_sub _ after s _ _) hrep
  | multiply => exact ends_single hl rfl (by simp) (fun after => exec_imul _ after s _ _) hrep
  | equal => exact comparison_ends hl (by rw [Flags.holds_equal, Flags.zero_ofDifference]) hrep
  | notEqual => exact comparison_ends hl (by rw [Flags.holds_notEqual, Flags.zero_ofDifference]; rfl) hrep
  | lessThan => exact comparison_ends hl (by rw [Flags.holds_less, Flags.sign_ne_overflow_ofDifference]) hrep
  | greaterThan =>
      refine comparison_ends hl ?_ hrep
      rw [Flags.holds_greater, Flags.sign_ne_overflow_ofDifference, Flags.zero_ofDifference]
      grind
  | lessOrEqual =>
      refine comparison_ends hl ?_ hrep
      rw [Flags.holds_lessEqual, Flags.sign_ne_overflow_ofDifference, Flags.zero_ofDifference]
      grind
  | greaterOrEqual =>
      refine comparison_ends hl ?_ hrep
      rw [Flags.holds_greaterEqual, Flags.sign_ne_overflow_ofDifference]
      grind
  | divide => exact division_ends ha hf hl hrep
  | modulo => exact division_ends ha hf hl hrep

end TierCalc.Routine
