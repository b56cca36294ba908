import TierCalc.Proofs.Routine.Operators
import TierCalc.Proofs.Routine.Body
import TierCalc.Proofs.Routine.Paths
import TierCalc.Proofs.X64.Fetch

/-!
# Balanced code

How many operands the stack holds before and after the code of an expression, as a typing of pieces of code.

* `Shifts` types an instruction: what verification makes of it once the frame stands.
* `Balanced` types pieces. Apart from composition there are two shapes with branches: a choice between two pieces of
  code that end with the same number of operands, and an escape to the exit, which is open to code that has dropped all
  operands.
* `body_balanced`: the code of an expression leaves as many operands as it finds.

No branch of a typed piece leads to the instruction right after it, which is how a branch that was never resolved looks.
-/

namespace TierCalc.Routine

open X64 Verify
open Setting (leavePieces byMinusOne byOther divisionPieces_eq piecesSize_leavePieces)

/-! ### Instructions -/

/-- The facts about the frame of a routine once it stands: the return address and the saved frame pointer are below
it. -/
def standing (slots : Nat) : FrameFacts := ⟨some 1, slots⟩

/-- The depth at which a number of operands lies above the slots. -/
def depthOver (slots count : Nat) : Int := 1 + slots + count

/-- Whether an instruction keeps to what verification takes for granted and leaves the frame as it stands. -/
def Inner (i : Instr) : Prop := i.Regular ∧ i.setsUp = false ∧ i ≠ .pop .rbp

instance : DecidablePred Inner := fun _ => inferInstanceAs (Decidable (_ ∧ _ ∧ _))

/-- What an instruction without a branch makes of the number of operands. -/
structure Shifts (slots : Nat) (i : Instr) (c c' : Nat) : Prop where
  straight : i.branch? = none
  stays : i ≠ .ret
  inner : Inner i
  effect (offset : Nat) : effect (Frame.words slots) (standing slots) (depthOver slots c) ⟨offset, i⟩
    = .ok (standing slots, depthOver slots c')

section
variable {slots c : Nat}

theorem operands_depthOver (slots c : Nat) : (standing slots).operands? (depthOver slots c) = some (c : Int) := by
  simp only [FrameFacts.operands?, standing, depthOver, Option.map_some, Option.some.injEq]
  omega

theorem depthOver_succ (slots c : Nat) : depthOver slots (c + 1) = depthOver slots c + 1 := by
  simp only [depthOver]
  omega

theorem shifts_silent {i : Instr} (hi : i.Silent) (hb : i.branch? = none) (hinner : Inner i) : Shifts slots i c c := by
  refine ⟨hb, ?_, hinner, fun offset => ?_⟩
  · rintro rfl
    exact hi
  · cases i with
    | push _ | pop _ | movReg _ _ | load _ _ _ | store _ _ _ | storeImm _ _ _ | ret => exact absurd hi id
    | addImm r _ | subImm r _ => exact if_neg hi
    | _ => rfl

theorem shifts_move {dst : Reg} (hd : dst.Free) (src : Reg) : Shifts slots (.movReg dst src) c c := by
  obtain ⟨hsp, hbp, hdi⟩ := hd
  refine ⟨rfl, by simp, ⟨hdi, by simp [Instr.setsUp, hbp], by simp⟩, fun offset => ?_⟩
  simp [effect, moveEffect, hsp, hbp]

theorem shifts_push (h : c + 1 ≤ maxDepth) (r : Reg) : Shifts slots (.push r) c (c + 1) := by
  refine ⟨rfl, by simp, ⟨trivial, rfl, by simp⟩, fun offset => ?_⟩
  have hroom : ¬ ((c + 1 : Nat) : Int) > maxDepth := by omega
  simp only [effect, ← depthOver_succ, operands_depthOver, if_neg hroom]

theorem shifts_pop (slots c : Nat) {r : Reg} (hr : r.Free) : Shifts slots (.pop r) (c + 1) c := by
  obtain ⟨hsp, hbp, hdi⟩ := hr
  refine ⟨rfl, by simp, ⟨⟨hsp, hdi⟩, rfl, by simp [hbp]⟩, fun offset => ?_⟩
  have hpos : depthOver slots (c + 1) ≠ 0 := by
    simp only [depthOver]
    omega
  have hsome : ¬ (r ≠ Reg.rbp ∧ ((c + 1 : Nat) : Int) ≤ 0) := by omega
  have hless : depthOver slots (c + 1) - 1 = depthOver slots c := by
    rw [depthOver_succ, Int.add_sub_cancel]
  simp only [effect, if_neg hpos, operands_depthOver, if_neg hsome, hless]

theorem adjustment_words {n : Nat} (h : n ≤ maxDepth) :
    (Int32.ofNat (8 * n)).toInt.tmod 8 = 0 ∧ (Int32.ofNat (8 * n)).toInt.tdiv 8 = n := by
  have himm : (Int32.ofNat (8 * n)).toInt = 8 * n := by
    simp only [maxDepth] at h
    rw [toInt_ofNat (by omega)]
    omega
  rw [himm]
  exact ⟨Int.mul_tmod_right 8 n, Int.mul_tdiv_cancel_left _ (by decide)⟩

theorem shifts_drop (h : c ≤ maxDepth) : Shifts slots (.addImm .rsp (Int32.ofNat (8 * c))) c 0 := by
  refine ⟨rfl, by simp, ⟨⟨by decide, by decide⟩, rfl, by simp⟩, fun offset => ?_⟩
  obtain ⟨haligned, hwords⟩ := adjustment_words h
  have hleft : depthOver slots c - c = depthOver slots 0 := by
    simp only [depthOver]
    omega
  have hnone : ¬ ((0 : Nat) : Int) < 0 := by omega
  simp only [effect, if_true, adjustEffect, haligned, ne_eq, not_true_eq_false, if_false, hwords, hleft,
    operands_depthOver, if_neg hnone]
  rfl

theorem shifts_memory {i : Instr} {base : Reg} {disp : Int32} (hm : i.memory? = some (base, disp)) (hi : i.Regular)
    (h : ∀ p, checkMemory (Frame.words slots) (standing slots) p base disp = .ok ()) : Shifts slots i c c := by
  cases i with
  | load _ _ _ | store _ _ _ | storeImm _ _ _ =>
      obtain ⟨rfl, rfl⟩ := Prod.mk.inj (Option.some.inj hm)
      refine ⟨rfl, by simp, ⟨hi, rfl, by simp⟩, fun offset => ?_⟩
      simp only [effect, bind_of_ok (h _), pure_ok]
  | _ => cases hm

end

/-! ### Memory operands -/

section
variable {slots s c : Nat} {p : Placed}

theorem checkMemory_frame (hs : s < slots) (hslots : slots ≤ maxSlots) :
    checkMemory (Frame.words slots) (standing slots) p .rbp (frameOffset s) = .ok () := by
  have h : ∀ s < maxSlots, frameOffset s % 8 = 0 ∧ frameOffset s < 0 ∧ (-frameOffset s / 8).toInt = s + 1 := by decide
  obtain ⟨haligned, hneg, hword⟩ := h s (by omega)
  have hin : ¬ ((s : Int) + 1 > slots) := by omega
  have hbelow : ¬ 0 ≤ frameOffset s := Int32.not_le.mpr hneg
  simp [checkMemory, haligned, standing, hword, hbelow, hin]

theorem frameOffset_ne (hs : s < maxSlots) : frameOffset s ≠ Int32.minValue := by
  have h : ∀ s < maxSlots, frameOffset s ≠ Int32.minValue := by decide
  exact h s hs

theorem shifts_loadSlot {dst : Reg} (hd : dst.Free) (hs : s < slots) (hslots : slots ≤ maxSlots) :
    Shifts slots (.load dst .rbp (frameOffset s)) c c :=
  shifts_memory rfl ⟨hd, fun _ => frameOffset_ne (by omega)⟩ fun _ => checkMemory_frame hs hslots

theorem shifts_storeSlot (src : Reg) (hs : s < slots) (hslots : slots ≤ maxSlots) :
    Shifts slots (.store .rbp (frameOffset s) src) c c :=
  shifts_memory rfl (fun _ => frameOffset_ne (by omega)) fun _ => checkMemory_frame hs hslots

theorem checkMemory_block {disp : Int32} {word : Nat} (haligned : disp % 8 = 0) (hpos : 0 ≤ disp)
    (hword : (disp / 8).toInt = word) (hin : word < Frame.words slots) :
    checkMemory (Frame.words slots) (standing slots) p .rdi disp = .ok () := by
  have hne : Reg.rdi ≠ Reg.rbp := by decide
  have hfrom : ¬ disp < 0 := Int32.not_lt.mpr hpos
  have hto : ¬ ((Frame.words slots : Nat) : Int) ≤ word := by omega
  simp [checkMemory, haligned, hne, hfrom, hword, hto]

theorem checkMemory_value (hs : s < slots) (hslots : slots ≤ maxSlots) :
    checkMemory (Frame.words slots) (standing slots) p .rdi (valueOffset s) = .ok () := by
  have h : ∀ s < maxSlots, valueOffset s % 8 = 0 ∧ 0 ≤ valueOffset s ∧
      (valueOffset s / 8).toInt = (1 + 2 * s : Nat) := by decide
  obtain ⟨haligned, hpos, hword⟩ := h s (by omega)
  apply checkMemory_block haligned hpos hword
  rw [Frame.words]
  omega

theorem checkMemory_flag (hs : s < slots) (hslots : slots ≤ maxSlots) :
    checkMemory (Frame.words slots) (standing slots) p .rdi (flagOffset s) = .ok () := by
  have h : ∀ s < maxSlots, flagOffset s % 8 = 0 ∧ 0 ≤ flagOffset s ∧
      (flagOffset s / 8).toInt = (2 + 2 * s : Nat) := by decide
  obtain ⟨haligned, hpos, hword⟩ := h s (by omega)
  apply checkMemory_block haligned hpos hword
  rw [Frame.words]
  omega

theorem checkMemory_status : checkMemory (Frame.words slots) (standing slots) p .rdi 0 = .ok () := by
  have hword : ((0 : Int32) / 8).toInt = ((0 : Nat) : Int) := by decide
  apply checkMemory_block (by decide) (by decide) hword
  rw [Frame.words]
  omega

end

/-! ### Pieces -/

/-- Pieces of code that find `c` operands and leave `c'` behind. -/
inductive Balanced (slots : Nat) : List Piece → Nat → Nat → Prop where
  | nil (c : Nat) : Balanced slots [] c c
  | instr {i : Instr} {c c' : Nat} (h : Shifts slots i c c') : Balanced slots [.instr i] c c'
  | append {ps qs : List Piece} {a b c : Nat} (hp : Balanced slots ps a b) (hq : Balanced slots qs b c) :
      Balanced slots (ps ++ qs) a c
  | choice {yes no : List Piece} {c c' : Nat} (cond : Cond) (hyes : Balanced slots yes c c')
      (hno : Balanced slots no c c') (hpos : 0 < piecesSize no) (hsize : piecesSize yes + 5 + piecesSize no < 2 ^ 31) :
      Balanced slots (.instr (.jcc cond (Int32.ofNat (piecesSize yes + 5))) ::
        (yes ++ .instr (.jmp (Int32.ofNat (piecesSize no))) :: no)) c c'
  | escape {leave rest : List Piece} {c c' : Nat} (cond : Cond) (hleave : Balanced slots leave c 0)
      (hrest : Balanced slots rest c c') (hpos : 0 < piecesSize rest) (hsize : piecesSize leave + 5 < 2 ^ 31) :
      Balanced slots (.instr (.jcc cond (Int32.ofNat (piecesSize leave + 5))) :: (leave ++ .exit :: rest)) c c'

theorem piecesSize_instr_pos (i : Instr) (ps : List Piece) : 0 < piecesSize (.instr i :: ps) := by
  have := i.size_pos
  rw [piecesSize, Piece.size]
  omega

section
variable {slots c c' : Nat}

theorem Balanced.cons {i : Instr} {ps : List Piece} {b : Nat} (hi : Shifts slots i c b) (h : Balanced slots ps b c') :
    Balanced slots (.instr i :: ps) c c' :=
  .append (.instr hi) h

theorem Balanced.straight {is : List Instr} (h : ∀ i ∈ is, Shifts slots i c c) : Balanced slots (pieces is) c c := by
  induction is with
  | nil => exact .nil c
  | cons i is ih => exact .cons (h i (by simp)) (ih fun j hj => h j (by simp [hj]))

theorem comparisonPieces_balanced (cond : Cond) : Balanced slots (comparisonPieces cond) c c := by
  apply Balanced.straight
  simp only [List.forall_mem_cons]
  have hax : Reg.rax.Free := by decide
  exact ⟨shifts_silent trivial rfl (by decide), shifts_silent trivial rfl ⟨hax, rfl, by simp⟩,
    shifts_silent trivial rfl (by decide), by simp⟩

theorem byMinusOne_shifts (isModulo : Bool) : Shifts slots (byMinusOne isModulo) c c := by
  cases isModulo <;> exact shifts_silent trivial rfl (by decide)

theorem byOther_balanced (isModulo : Bool) : Balanced slots (pieces (byOther isModulo)) c c := by
  apply Balanced.straight
  cases isModulo <;> simp only [byOther, List.forall_mem_append, List.forall_mem_cons]
  · exact ⟨⟨shifts_silent trivial rfl (by decide), shifts_silent trivial rfl (by decide), by simp⟩, by simp⟩
  · refine ⟨⟨shifts_silent trivial rfl (by decide), shifts_silent trivial rfl (by decide), by simp⟩, ?_⟩
    simpa using shifts_move (by decide) Reg.rdx

/-- Division drops the operands that are left before it escapes. -/
theorem divisionPieces_balanced (isModulo : Bool) (h : c ≤ maxDepth) :
    Balanced slots (divisionPieces isModulo c) c c := by
  have hstore : Shifts slots (.storeImm .rdi 0 (statusOf isModulo)) 0 0 :=
    shifts_memory rfl (absurd · (by decide)) fun _ => checkMemory_status
  have hleave : Balanced slots (pieces ((if c > 0 then [.addImm .rsp (Int32.ofNat (8 * c))] else [])
      ++ [.storeImm .rdi 0 (statusOf isModulo)])) c 0 := by
    split_ifs with hc
    · exact .cons (shifts_drop h) (.instr hstore)
    · obtain rfl : c = 0 := by omega
      exact .instr hstore
  have hsize := piecesSize_leavePieces isModulo c
  rw [divisionPieces_eq]
  rw [leavePieces, piecesSize_append] at hsize ⊢
  rw [List.append_assoc]
  have hcompare : Shifts slots (.cmpImm .rcx (-1)) c c := shifts_silent trivial rfl (by decide)
  have htest : Shifts slots (.test .rcx .rcx) c c := shifts_silent trivial rfl (by decide)
  refine .cons htest (.escape .notEqual hleave (.cons hcompare ?_) (piecesSize_instr_pos _ _) hsize)
  cases isModulo
  · exact .choice .notEqual (.instr (byMinusOne_shifts false)) (byOther_balanced false) (by decide) (by decide)
  · exact .choice .notEqual (.instr (byMinusOne_shifts true)) (byOther_balanced true) (by decide) (by decide)

theorem operatorPieces_balanced (o : Operator) (h : c ≤ maxDepth) : Balanced slots (operatorPieces c o) c c := by
  cases o with
  | add | subtract | multiply => exact .instr (shifts_silent trivial rfl (by decide))
  | divide => exact divisionPieces_balanced false h
  | modulo => exact divisionPieces_balanced true h
  | equal | notEqual | lessThan | greaterThan | lessOrEqual | greaterOrEqual => exact comparisonPieces_balanced _

theorem choicePieces_balanced {yes no : List Piece} (hyes : Balanced slots yes c c') (hno : Balanced slots no c c')
    (hpos : 0 < piecesSize no) (hsize : piecesSize (choicePieces yes no) < 2 ^ 31) :
    Balanced slots (choicePieces yes no) c c' := by
  have htest : Shifts slots (.test .rax .rax) c c := shifts_silent trivial rfl (by decide)
  have hshape : choicePieces yes no = .instr (.test .rax .rax) ::
      .instr (.jcc .equal (Int32.ofNat (piecesSize yes + 5))) ::
        (yes ++ .instr (.jmp (Int32.ofNat (piecesSize no))) :: no) := by
    simp only [choicePieces, pieces, List.map_cons, List.map_nil, List.cons_append, List.nil_append, List.append_assoc,
      Instr.size_eq_width, Instr.width]
  rw [hshape] at hsize ⊢
  refine .cons htest (.choice .equal hyes hno hpos ?_)
  simp only [piecesSize, piecesSize_append, Piece.size, Instr.size_eq_width, Instr.width] at hsize
  omega

end

/-! ### Expressions -/

section
variable {e : Expr} {d slots : Nat} {p p' : Progress} {ps : List Piece}

theorem body_pos (h : body d e p = .ok (ps, p')) : 0 < piecesSize ps := by
  cases e with
  | int pos literal v =>
      obtain ⟨rfl, -⟩ := body_int h
      exact piecesSize_instr_pos _ _
  | ident pos name =>
      obtain ⟨-, rfl, -⟩ := body_ident h
      exact piecesSize_instr_pos _ _
  | binary l pos op r =>
      obtain ⟨o, right, left, q, -, -, -, -, -, rfl⟩ := body_binary h
      have := piecesSize_instr_pos (.push .rax) []
      simp only [piecesSize_append, pieces, List.map_cons, List.map_nil]
      omega
  | assign pos name eqPos v =>
      obtain ⟨value, q, -, -, rfl, -⟩ := body_assign h
      have := piecesSize_instr_pos (.store .rbp (frameOffset ((Layout.add q.names name).idxOf name)) .rax)
        (pieces [.storeImm .rdi (flagOffset ((Layout.add q.names name).idxOf name)) 1])
      rw [piecesSize_append]
      exact Nat.add_pos_right _ this
  | call pos name lparen args rparen => exact absurd h body_call
  | cond pos lparen c y n rparen =>
      obtain ⟨test, yes, no, q₁, q₂, q₃, -, -, -, rfl, -⟩ := body_cond h
      rw [piecesSize_append, choicePieces, pieces, List.map_cons, List.append_assoc, List.append_assoc,
        List.cons_append]
      exact Nat.add_pos_right _ (piecesSize_instr_pos _ _)

/-- The code of an expression leaves as many operands as it finds. -/
theorem body_balanced (h : body d e p = .ok (ps, p')) (hclosed : p.defined ⊆ p.names)
    (hnames : p'.names.length ≤ slots) (hslots : slots ≤ maxSlots) (hsize : piecesSize ps < 2 ^ 31) :
    Balanced slots ps d d := by
  induction e using Expr.nodeInduction generalizing d p p' ps with
  | int pos literal v =>
      obtain ⟨rfl, rfl⟩ := body_int h
      apply Balanced.instr
      have hax : Reg.rax.Free := by decide
      rcases Instr.mov_cases .rax v with ⟨hmov, -⟩ | hmov
      · rw [hmov]
        exact shifts_silent trivial rfl ⟨hax, rfl, by simp⟩
      · rw [hmov]
        exact shifts_silent trivial rfl ⟨hax, rfl, by simp⟩
  | ident pos name =>
      obtain ⟨hdefined, rfl, rfl⟩ := body_ident h
      have hslot := List.idxOf_lt_length_of_mem (hclosed hdefined)
      exact .instr (shifts_loadSlot (by decide) (by omega) hslots)
  | binary l pos op r ihl ihr =>
      obtain ⟨o, right, left, q, -, -, hr, hdepth, hl, rfl⟩ := body_binary h
      simp only [piecesSize_append] at hsize
      have hq : q.names.length ≤ p'.names.length := (body_grows hl).names.length_le
      have hright := ihr hr hclosed (by omega) (by omega)
      have hleft := ihl hl ((body_grows hr).closed hclosed) hnames (by omega)
      exact .append (.append (.append (.append hright (.instr (shifts_push hdepth _))) hleft)
        (.instr (shifts_pop slots d (by decide)))) (operatorPieces_balanced o (by omega))
  | assign pos name eqPos v ih =>
      obtain ⟨value, q, hv, -, rfl, rfl⟩ := body_assign h
      rw [piecesSize_append] at hsize
      have hq : q.names.length ≤ (Layout.add q.names name).length := (prefix_add q.names name).length_le
      have hmem : name ∈ Layout.add q.names name := mem_add.mpr (.inr rfl)
      have hslot : (Layout.add q.names name).idxOf name < slots :=
        Nat.lt_of_lt_of_le (List.idxOf_lt_length_of_mem hmem) hnames
      have hvalue := ih hv hclosed (Nat.le_trans hq hnames) (by omega)
      exact .append hvalue (.cons (shifts_storeSlot .rax hslot hslots)
        (.instr (shifts_memory rfl (absurd · (by decide)) fun _ => checkMemory_flag hslot hslots)))
  | call pos name lparen args rparen _ => exact absurd h body_call
  | cond pos lparen c y n rparen ihc ihy ihn =>
      obtain ⟨test, yes, no, q₁, q₂, q₃, hc, hy, hn, rfl, rfl⟩ := body_cond h
      rw [piecesSize_append] at hsize
      have hbranches : piecesSize yes + piecesSize no ≤ piecesSize (choicePieces yes no) := by
        simp only [choicePieces, piecesSize_append]
        omega
      have hclosed₁ := (body_grows hc).closed hclosed
      have hq₂ : q₂.names.length ≤ q₃.names.length := (body_grows hn).names.length_le
      have hq₁ : q₁.names.length ≤ q₂.names.length := (body_grows hy).names.length_le
      simp only at hnames
      have htest := ihc hc hclosed (by omega) (by omega)
      have hyes := ihy hy hclosed₁ (by omega) (by omega)
      -- The second branch starts from the names that had values before the first one, and keeps its slots.
      have hno := ihn hn (fun m hm => (body_grows hy).names.subset (hclosed₁ hm)) hnames (by omega)
      exact .append htest (choicePieces_balanced hyes hno (body_pos hn) (by omega))

end

end TierCalc.Routine
