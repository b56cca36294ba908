import TierCalc.Proofs.Routine.Balance
import TierCalc.Proofs.Routine.Correctness
import TierCalc.Proofs.Routine.Domain
import TierCalc.Proofs.Routine.Explored

/-!
# Generated code is accepted

Balanced code passes verification, so code is generated exactly for the expressions of the documented domain.

* `Marks` gives the depth at every offset of a piece of code whose pieces carry numbers of operands, together with the
  exit behind it. `Charted` says that every piece leads to offsets that are marked with the depth it leaves.
* `Balanced.charted`: balanced pieces can be marked, whatever charted code follows them.
* `explore_closed`: verification succeeds on marks that are closed under taking a step, in whatever order it follows the
  paths.
-/

namespace TierCalc.Routine

open X64 Verify

/-! ### Marks -/

/-- The depth at an offset of marked pieces that start at `s` and are followed by the exit. -/
def Marks (slots : Nat) : Nat → List (Piece × Nat) → Nat → Int → Prop
  | s, [], o, d => (o = s ∧ d = depthOver slots 0) ∨ (o = s + 3 ∧ d = 1) ∨ (o = s + 4 ∧ d = 0)
  | s, (q, c) :: A, o, d => (o = s ∧ d = depthOver slots c) ∨ Marks slots (s + q.size) A o d

/-- Marked pieces that lead to marks with the depth that they leave. -/
inductive Charted (slots : Nat) : Nat → List (Piece × Nat) → Prop where
  | nil (s : Nat) : Charted slots s []
  | straight {s c c' : Nat} {i : Instr} {A : List (Piece × Nat)} (hi : Shifts slots i c c')
      (hnext : Marks slots (s + i.size) A (s + i.size) (depthOver slots c')) (hA : Charted slots (s + i.size) A) :
      Charted slots s ((.instr i, c) :: A)
  | jump {s c n : Nat} {A : List (Piece × Nat)} (hpos : 0 < n) (hlt : n < 2 ^ 31)
      (hto : Marks slots (s + 5) A (s + 5 + n) (depthOver slots c)) (hA : Charted slots (s + 5) A) :
      Charted slots s ((.instr (.jmp (Int32.ofNat n)), c) :: A)
  | branch {s c n : Nat} {A : List (Piece × Nat)} (cond : Cond) (hpos : 0 < n) (hlt : n < 2 ^ 31)
      (hnext : Marks slots (s + 6) A (s + 6) (depthOver slots c))
      (hto : Marks slots (s + 6) A (s + 6 + n) (depthOver slots c)) (hA : Charted slots (s + 6) A) :
      Charted slots s ((.instr (.jcc cond (Int32.ofNat n)), c) :: A)
  | exit {s : Nat} {A : List (Piece × Nat)} (hpos : 0 < piecesSize (A.map Prod.fst)) (hA : Charted slots (s + 5) A) :
      Charted slots s ((.exit, 0) :: A)

theorem Piece.size_pos (q : Piece) : 0 < q.size := by
  cases q with
  | instr i => exact i.size_pos
  | exit => decide

section
variable {slots s : Nat} {A B : List (Piece × Nat)} {o : Nat} {d d' : Int}

theorem Marks.le (h : Marks slots s A o d) : s ≤ o := by
  induction A generalizing s with
  | nil =>
      rcases h with ⟨rfl, -⟩ | ⟨rfl, -⟩ | ⟨rfl, -⟩ <;> omega
  | cons a A ih =>
      rcases h with ⟨rfl, -⟩ | h
      · exact Nat.le_refl _
      · have := ih h
        omega

/-- An offset has one depth. -/
theorem Marks.unique (h : Marks slots s A o d) (h' : Marks slots s A o d') : d = d' := by
  induction A generalizing s with
  | nil =>
      rcases h with ⟨rfl, rfl⟩ | ⟨rfl, rfl⟩ | ⟨rfl, rfl⟩ <;> rcases h' with ⟨ho, rfl⟩ | ⟨ho, rfl⟩ | ⟨ho, rfl⟩ <;>
        first | rfl | omega
  | cons a A ih =>
      have hpos := a.1.size_pos
      rcases h with ⟨ho, rfl⟩ | h <;> rcases h' with ⟨ho', rfl⟩ | h'
      · rfl
      · have := h'.le
        omega
      · have := h.le
        omega
      · exact ih h h'

theorem Marks.append (h : Marks slots (s + piecesSize (A.map Prod.fst)) B o d) : Marks slots s (A ++ B) o d := by
  induction A generalizing s with
  | nil => exact h
  | cons a A ih =>
      rw [List.map_cons, piecesSize, ← Nat.add_assoc] at h
      exact .inr (ih h)

theorem marks_exit (slots s : Nat) (A : List (Piece × Nat)) :
    Marks slots s A (s + piecesSize (A.map Prod.fst)) (depthOver slots 0) := by
  induction A generalizing s with
  | nil => exact .inl ⟨rfl, rfl⟩
  | cons a A ih =>
      rw [List.map_cons, piecesSize, ← Nat.add_assoc]
      exact .inr (ih _)

/-- Only instructions are marked. -/
theorem Marks.placed (h : Marks slots s A o d) :
    ∃ p ∈ placedFrom s (close (A.map Prod.fst) ++ epilogue), p.offset = o := by
  induction A generalizing s with
  | nil =>
      rcases h with ⟨rfl, -⟩ | ⟨rfl, -⟩ | ⟨rfl, -⟩
      · exact ⟨⟨_, .movReg .rsp .rbp⟩, by simp [close, epilogue, placedFrom], rfl⟩
      · exact ⟨⟨_, .pop .rbp⟩, by simp [close, epilogue, placedFrom, Instr.size_eq_width, Instr.width], rfl⟩
      · exact ⟨⟨_, .ret⟩, by simp [close, epilogue, placedFrom, Instr.size_eq_width, Instr.width], rfl⟩
  | cons a A ih =>
      obtain ⟨q, c⟩ := a
      rcases h with ⟨rfl, -⟩ | h
      · cases q with
        | instr i => exact ⟨⟨_, i⟩, by simp [close, placedFrom], rfl⟩
        | exit => exact ⟨⟨_, .jmp (Int32.ofNat (piecesSize (A.map Prod.fst)))⟩, by simp [close, placedFrom], rfl⟩
      · obtain ⟨p, hp, ho⟩ := ih h
        refine ⟨p, ?_, ho⟩
        cases q with
        | instr i => exact List.mem_cons_of_mem _ hp
        | exit => exact List.mem_cons_of_mem _ hp

/-! ### Balanced code can be marked -/

theorem Balanced.charted {ps : List Piece} {c c' : Nat} (h : Balanced slots ps c c')
    (hB : Charted slots (s + piecesSize ps) B)
    (hm : Marks slots (s + piecesSize ps) B (s + piecesSize ps) (depthOver slots c')) :
    ∃ A : List (Piece × Nat), A.map Prod.fst = ps ∧ Charted slots s (A ++ B) ∧
      Marks slots s (A ++ B) s (depthOver slots c) := by
  -- Marks are given from the back, since a branch is checked against the marks of what follows it.
  induction h generalizing s B with
  | nil c => exact ⟨[], rfl, hB, hm⟩
  | @instr i c c' hi => exact ⟨[(.instr i, c)], rfl, .straight hi hm hB, .inl ⟨rfl, rfl⟩⟩
  | @append ps qs a b c _ _ ihp ihq =>
      rw [piecesSize_append, ← Nat.add_assoc] at hB hm
      obtain ⟨Q, hQ, hchart, hmark⟩ := ihq hB hm
      obtain ⟨P, hP, hchart', hmark'⟩ := ihp hchart hmark
      refine ⟨P ++ Q, by rw [List.map_append, hP, hQ], ?_, ?_⟩
      · rwa [List.append_assoc]
      · rwa [List.append_assoc]
  | @choice yes no c c' cond _ _ hpos hsize ihyes ihno =>
      have hstop : s + piecesSize (.instr (.jcc cond (Int32.ofNat (piecesSize yes + 5))) ::
          (yes ++ .instr (.jmp (Int32.ofNat (piecesSize no))) :: no))
          = s + 6 + piecesSize yes + 5 + piecesSize no := by
        simp only [piecesSize, piecesSize_append, Piece.size, Instr.size_eq_width, Instr.width]
        omega
      rw [hstop] at hB hm
      obtain ⟨N, hN, hchart, hmark⟩ := ihno hB hm
      rw [← hN] at hm
      obtain ⟨Y, hY, hchart', hmark'⟩ := ihyes (.jump hpos (by omega) (hN ▸ hm.append) hchart) (.inl ⟨rfl, rfl⟩)
      refine ⟨(.instr (.jcc cond (Int32.ofNat (piecesSize yes + 5))), c) ::
        (Y ++ (.instr (.jmp (Int32.ofNat (piecesSize no))), c') :: N), by simp [hY, hN], ?_, .inl ⟨rfl, rfl⟩⟩
      rw [List.cons_append, List.append_assoc, List.cons_append]
      rw [← hY] at hmark ⊢
      exact .branch cond (by omega) (by rw [hY]; omega) hmark' (Marks.append (.inr hmark)) hchart'
  | @escape leave rest c c' cond _ _ hpos hsize ihleave ihrest =>
      have hstop : s + piecesSize (.instr (.jcc cond (Int32.ofNat (piecesSize leave + 5))) :: (leave ++ .exit :: rest))
          = s + 6 + piecesSize leave + 5 + piecesSize rest := by
        simp only [piecesSize, piecesSize_append, Piece.size, Instr.size_eq_width, Instr.width]
        omega
      rw [hstop] at hB hm
      obtain ⟨R, hR, hchart, hmark⟩ := ihrest hB hm
      have hbehind : 0 < piecesSize ((R ++ B).map Prod.fst) := by
        rw [List.map_append, piecesSize_append, hR]
        omega
      obtain ⟨L, hL, hchart', hmark'⟩ := ihleave (.exit hbehind hchart) (.inl ⟨rfl, rfl⟩)
      refine ⟨(.instr (.jcc cond (Int32.ofNat (piecesSize leave + 5))), c) :: (L ++ (.exit, 0) :: R),
        by simp [hL, hR], ?_, .inl ⟨rfl, rfl⟩⟩
      rw [List.cons_append, List.append_assoc, List.cons_append]
      rw [← hL] at hmark ⊢
      exact .branch cond (by omega) (by rw [hL]; omega) hmark' (Marks.append (.inr hmark)) hchart'

/-! ### Marks are closed under steps -/

/-- Whether verification passes an instruction at a depth and goes on to marked offsets only. -/
def Onward (slots stop s : Nat) (A : List (Piece × Nat)) (d : Int) (p : Placed) : Prop :=
  ∃ d' next, effect (Frame.words slots) (standing slots) d p = .ok (standing slots, d') ∧
    successors stop p = .ok next ∧ ∀ o ∈ next, ∃ n : Nat, o = n ∧ Marks slots s A n d'

theorem successors_straight {stop : Nat} {p : Placed} (hb : p.instr.branch? = none) (hr : p.instr ≠ .ret)
    (h : p.stop < stop) : successors stop p = .ok [(p.stop : Int)] := by
  have hin : ¬ p.stop ≥ stop := by omega
  unfold successors
  cases hi : p.instr with
  | jcc | jmp => simp [hi, Instr.branch?] at hb
  | ret => exact absurd hi hr
  | _ => simp only [hin, if_false]

theorem target_of_branch {o n : Nat} {i : Instr} (hi : i.branch? = some (Int32.ofNat n)) (hn : n < 2 ^ 31) :
    (⟨o, i⟩ : Placed).target = (o + i.size + n : Nat) := by
  simp only [Placed.target, Placed.stop, hi, toInt_ofNat hn]
  omega

theorem onward_jump {stop n c : Nat} {q : Piece} (hq : q.size = 5) (hpos : 0 < n) (hlt : n < 2 ^ 31)
    (hto : Marks slots (s + 5) A (s + 5 + n) (depthOver slots c)) :
    Onward slots stop s ((q, c) :: A) (depthOver slots c) ⟨s, .jmp (Int32.ofNat n)⟩ := by
  have htarget : (⟨s, .jmp (Int32.ofNat n)⟩ : Placed).target = (s + 5 + n : Nat) := target_of_branch rfl hlt
  refine ⟨_, [((s + 5 + n : Nat) : Int)], rfl, ?_, fun o ho => ?_⟩
  · have hne : ¬ ((s + 5 + n : Nat) : Int) = ((⟨s, .jmp (Int32.ofNat n)⟩ : Placed).stop : Nat) := by
      simp only [Placed.stop, Instr.size_eq_width, Instr.width]
      omega
    simp only [successors, htarget, if_neg hne]
  · obtain rfl := List.mem_singleton.mp ho
    exact ⟨_, rfl, .inr (hq ▸ hto)⟩

theorem onward_branch {stop n c : Nat} {cond : Cond} (hpos : 0 < n) (hlt : n < 2 ^ 31) (hstop : s + 6 < stop)
    (hnext : Marks slots (s + 6) A (s + 6) (depthOver slots c))
    (hto : Marks slots (s + 6) A (s + 6 + n) (depthOver slots c)) :
    Onward slots stop s ((.instr (.jcc cond (Int32.ofNat n)), c) :: A) (depthOver slots c)
      ⟨s, .jcc cond (Int32.ofNat n)⟩ := by
  have htarget : (⟨s, .jcc cond (Int32.ofNat n)⟩ : Placed).target = (s + 6 + n : Nat) := target_of_branch rfl hlt
  have hend : (⟨s, .jcc cond (Int32.ofNat n)⟩ : Placed).stop = s + 6 := rfl
  refine ⟨_, [((s + 6 : Nat) : Int), ((s + 6 + n : Nat) : Int)], rfl, ?_, fun o ho => ?_⟩
  · have hne : ¬ ((s + 6 + n : Nat) : Int) = ((s + 6 : Nat) : Int) := by omega
    have hin : ¬ s + 6 ≥ stop := by omega
    simp only [successors, htarget, hend, if_neg hne, if_neg hin]
    rfl
  · rcases List.mem_pair.mp ho with rfl | rfl
    · exact ⟨_, rfl, .inr hnext⟩
    · exact ⟨_, rfl, .inr hto⟩

theorem onward_cons {stop c : Nat} {q : Piece} {i : Instr} {is : List Instr} (hq : i.size = q.size)
    (hhead : Onward slots stop s ((q, c) :: A) (depthOver slots c) ⟨s, i⟩)
    (htail : ∀ p ∈ placedFrom (s + q.size) is, ∀ d, Marks slots (s + q.size) A p.offset d →
      Onward slots stop (s + q.size) A d p) :
    ∀ p ∈ placedFrom s (i :: is), ∀ d, Marks slots s ((q, c) :: A) p.offset d →
      Onward slots stop s ((q, c) :: A) d p := by
  intro p hp d hm
  have hpos := q.size_pos
  rcases List.mem_cons.mp hp with rfl | hp
  · obtain rfl := hm.unique (.inl ⟨rfl, rfl⟩)
    exact hhead
  · rw [hq] at hp
    rcases hm with ⟨ho, -⟩ | hm
    · have := le_of_mem_placedFrom hp
      omega
    · obtain ⟨d', next, heffect, hnext, hmarks⟩ := htail p hp d hm
      refine ⟨d', next, heffect, hnext, fun o ho => ?_⟩
      obtain ⟨n, hn, hmark⟩ := hmarks o ho
      exact ⟨n, hn, .inr hmark⟩

theorem onward_epilogue (slots s : Nat) :
    ∀ p ∈ placedFrom s epilogue, ∀ d, Marks slots s [] p.offset d → Onward slots (s + 5) s [] d p := by
  intro p hp d hm
  have hplaced : placedFrom s epilogue = [⟨s, .movReg .rsp .rbp⟩, ⟨s + 3, .pop .rbp⟩, ⟨s + 4, .ret⟩] := rfl
  rw [hplaced] at hp
  simp only [List.mem_cons, List.not_mem_nil, or_false] at hp
  have hne : Reg.rsp ≠ Reg.rbp := by decide
  rcases hp with rfl | rfl | rfl
  · obtain rfl := hm.unique (.inl ⟨rfl, rfl⟩)
    have hend : (⟨s, .movReg .rsp .rbp⟩ : Placed).stop = s + 3 := rfl
    refine ⟨1, [((s + 3 : Nat) : Int)], ?_, successors_straight rfl (by simp) (by omega), ?_⟩
    · simp [effect, moveEffect, standing, depthOver, hne]
    · simp only [List.mem_singleton, forall_eq]
      exact ⟨_, rfl, .inr (.inl ⟨rfl, rfl⟩)⟩
  · obtain rfl := hm.unique (.inr (.inl ⟨rfl, rfl⟩))
    have hend : (⟨s + 3, .pop .rbp⟩ : Placed).stop = s + 4 := rfl
    refine ⟨0, [((s + 4 : Nat) : Int)], ?_, successors_straight rfl (by simp) (by omega), ?_⟩
    · simp [effect, FrameFacts.operands?, standing]
    · simp only [List.mem_singleton, forall_eq]
      exact ⟨_, rfl, .inr (.inr ⟨rfl, rfl⟩)⟩
  · obtain rfl := hm.unique (.inr (.inr ⟨rfl, rfl⟩))
    exact ⟨0, [], rfl, rfl, by simp⟩

/-- Charted code leads from marks to marks. -/
theorem Charted.onward (h : Charted slots s A) (hsize : piecesSize (A.map Prod.fst) < 2 ^ 31) {stop : Nat}
    (hstop : s + piecesSize (A.map Prod.fst) + 5 = stop) :
    ∀ p ∈ placedFrom s (close (A.map Prod.fst) ++ epilogue), ∀ d, Marks slots s A p.offset d →
      Onward slots stop s A d p := by
  induction h with
  | nil s =>
      subst hstop
      exact onward_epilogue slots s
  | @straight s c c' i A hi hnext hA ih =>
      simp only [List.map_cons, piecesSize, Piece.size] at hsize hstop
      refine onward_cons rfl ?_ (ih (by omega) (by omega))
      have hend : (⟨s, i⟩ : Placed).stop = s + i.size := rfl
      refine ⟨depthOver slots c', [((s + i.size : Nat) : Int)], hi.effect s,
        successors_straight hi.straight hi.stays (by omega), ?_⟩
      simp only [List.mem_singleton, forall_eq]
      exact ⟨_, rfl, .inr hnext⟩
  | @jump s c n A hpos hlt hto hA ih =>
      simp only [List.map_cons, piecesSize, Piece.size, Instr.size_eq_width, Instr.width] at hsize hstop
      exact onward_cons rfl (onward_jump rfl hpos hlt hto) (ih (by omega) (by omega))
  | @branch s c n A cond hpos hlt hnext hto hA ih =>
      simp only [List.map_cons, piecesSize, Piece.size, Instr.size_eq_width, Instr.width] at hsize hstop
      exact onward_cons rfl (onward_branch hpos hlt (by omega) hnext hto) (ih (by omega) (by omega))
  | @exit s A hpos hA ih =>
      simp only [List.map_cons, piecesSize, Piece.size, Instr.size_eq_width, Instr.width] at hsize hstop
      exact onward_cons rfl (onward_jump rfl hpos (by omega) (marks_exit slots (s + 5) A)) (ih (by omega) (by omega))

end

/-! ### Exploring -/

section
variable {stop blockWords : Nat} {f : FrameFacts} {fresh : List Placed} {depths work : List (Int × Int)}

theorem mem_of_find? {offset : Int} {p : Placed} (h : fresh.find? (fun p => p.offset == offset) = some p) :
    p ∈ fresh ∧ (p.offset : Int) = offset :=
  ⟨List.mem_of_find?_eq_some h, by simpa using List.find?_some h⟩

/-- Verification succeeds on marks that are closed under steps, with facts about the frame that no step changes. -/
theorem explore_closed {M : Int → Int → Prop} (hunique : ∀ o d d', M o d → M o d' → d = d')
    (hwork : ∀ w ∈ work, M w.1 w.2)
    (hknown : ∀ o d, M o d →
      depths.lookup o = some d ∨ depths.lookup o = none ∧ ∃ p ∈ fresh, (p.offset : Int) = o)
    (hstep : ∀ p ∈ fresh, ∀ d, M p.offset d → ∃ d' next, effect blockWords f d p = .ok (f, d') ∧
      successors stop p = .ok next ∧ ∀ o ∈ next, M o d') :
    explore stop blockWords fresh depths f work = .ok () := by
  fun_induction explore stop blockWords fresh depths f work with
  | case1 => rfl
  | case2 fresh depths f offset depth rest other hlook hne =>
      rcases hknown offset depth (hwork _ List.mem_cons_self) with hsome | ⟨hnone, -⟩
      · rw [hlook] at hsome
        exact absurd (Option.some.inj hsome) hne
      · rw [hlook] at hnone
        cases hnone
  | case3 fresh depths f offset depth rest other hlook heq ih =>
      exact ih (fun w hw => hwork w (by simp [hw])) hknown hstep
  | case4 fresh depths f offset depth rest hlook hfind =>
      rcases hknown offset depth (hwork _ List.mem_cons_self) with hsome | ⟨-, p, hp, ho⟩
      · rw [hlook] at hsome
        cases hsome
      · exact absurd (by simpa using ho) (List.find?_eq_none.mp hfind p hp)
  | case5 fresh depths f offset depth rest hlook p hfind fault heffect =>
      obtain ⟨hp, rfl⟩ := mem_of_find? hfind
      obtain ⟨d', next, heffect', -, -⟩ := hstep p hp depth (hwork _ List.mem_cons_self)
      rw [heffect] at heffect'
      cases heffect'
  | case6 fresh depths f offset depth rest hlook p hfind f' after heffect fault hsucc =>
      obtain ⟨hp, rfl⟩ := mem_of_find? hfind
      obtain ⟨d', next, -, hsucc', -⟩ := hstep p hp depth (hwork _ List.mem_cons_self)
      rw [hsucc] at hsucc'
      cases hsucc'
  | case7 fresh depths f offset depth rest hlook p hfind f' after heffect next hsucc ih =>
      obtain ⟨hp, rfl⟩ := mem_of_find? hfind
      have hat : M p.offset depth := hwork _ List.mem_cons_self
      obtain ⟨d', next', heffect', hsucc', hnext⟩ := hstep p hp depth hat
      rw [heffect] at heffect'
      rw [hsucc] at hsucc'
      obtain ⟨rfl, rfl⟩ := Prod.mk.inj (Except.ok.inj heffect')
      obtain rfl := Except.ok.inj hsucc'
      apply ih
      · intro w hw
        rcases List.mem_append.mp hw with hw | hw
        · obtain ⟨o, ho, rfl⟩ := List.mem_map.mp hw
          exact hnext o ho
        · exact hwork w (by simp [hw])
      · intro o d ho
        by_cases heq : o = p.offset
        · subst heq
          rw [hunique _ _ _ ho hat, List.lookup_cons_self]
          exact .inl rfl
        · rw [List.lookup_cons, beq_eq_false_iff_ne.mpr heq]
          rcases hknown o d ho with hsome | ⟨hnone, q, hq, hqo⟩
          · exact .inl hsome
          · have hqp : q ≠ p := by
              rintro rfl
              exact heq hqo.symm
            exact .inr ⟨hnone, q, (List.mem_erase_of_ne hqp).mpr hq, hqo⟩
      · exact fun q hq => hstep q (List.mem_of_mem_erase hq)

theorem lookup_eq_none_of_lt {s : Int} (h : ∀ x ∈ depths, x.1 < s) {o : Int} (ho : s ≤ o) :
    depths.lookup o = none := by
  rw [List.lookup_eq_none_iff]
  intro x hx
  have := h x hx
  rw [bne_iff_ne]
  omega

/-- One step in a row of instructions of which those before have been visited. -/
theorem explore_row {s : Nat} {i : Instr} {is : List Instr} {d a : Int} {g : FrameFacts}
    (hbefore : ∀ x ∈ depths, x.1 < (s : Int)) (hb : i.branch? = none) (hr : i ≠ .ret) (hstop : s + i.size < stop)
    (heffect : effect blockWords f d ⟨s, i⟩ = .ok (g, a)) :
    explore stop blockWords (placedFrom s (i :: is)) depths f [((s : Int), d)] =
      explore stop blockWords (placedFrom (s + i.size) is) (((s : Int), d) :: depths) g [((s + i.size : Nat), a)] := by
  have hnext : successors stop ⟨s, i⟩ = .ok [((s + i.size : Nat) : Int)] := successors_straight hb hr hstop
  have hfind : (placedFrom s (i :: is)).find? (fun p => (p.offset : Int) == s) = some ⟨s, i⟩ := by simp [placedFrom]
  rw [explore_fresh (lookup_eq_none_of_lt hbefore (Int.le_refl _)) hfind, heffect]
  simp only [hnext]
  simp [placedFrom]

end

/-! ### Whole routines -/

theorem close_pieces_append (is : List Instr) (qs : List Piece) : close (pieces is ++ qs) = is ++ close qs := by
  induction is with
  | nil => rfl
  | cons i is ih => exact congrArg (i :: ·) ih

/-- A body between the copying of the block's values into the slots and back. -/
def framed (slots : Nat) (ps : List Piece) : List Piece :=
  pieces ((List.range slots).flatMap fun s => [.load .rax .rdi (valueOffset s), .store .rbp (frameOffset s) .rax])
    ++ (ps ++ pieces (copyBack slots))

theorem assemble_eq_framed (slots : Nat) (ps : List Piece) :
    assemble slots ps = .push .rbp :: .movReg .rbp .rsp ::
      ((if slots > 0 then [.subImm .rsp (Int32.ofNat (8 * slots))] else [])
        ++ (close (framed slots ps) ++ epilogue)) := by
  simp only [assemble, prologue, framed, close_pieces_append, List.cons_append, List.nil_append, List.append_assoc]

section
variable {slots : Nat} {ps : List Piece}

theorem copyBack_balanced (hslots : slots ≤ maxSlots) : Balanced slots (pieces (copyBack slots)) 0 0 := by
  apply Balanced.straight
  simp only [copyBack, List.forall_mem_flatMap, List.forall_mem_cons, List.mem_range]
  exact fun s hs => ⟨shifts_loadSlot (by decide) hs hslots,
    shifts_memory rfl (absurd · (by decide)) fun _ => checkMemory_value hs hslots, by simp⟩

theorem framed_balanced (h : Balanced slots ps 0 0) (hslots : slots ≤ maxSlots) :
    Balanced slots (framed slots ps) 0 0 := by
  refine .append (.straight ?_) (.append h (copyBack_balanced hslots))
  simp only [List.forall_mem_flatMap, List.forall_mem_cons, List.mem_range]
  exact fun s hs => ⟨shifts_memory rfl ⟨by decide, (absurd · (by decide))⟩ fun _ => checkMemory_value hs hslots,
    shifts_storeSlot .rax hs hslots, by simp⟩

/-- Verification of balanced code succeeds once the frame stands. -/
theorem explore_standing {s stop : Nat} {depths : List (Int × Int)} (h : Balanced slots ps 0 0)
    (hsize : piecesSize ps < 2 ^ 31) (hstop : s + piecesSize ps + 5 = stop) (hbefore : ∀ x ∈ depths, x.1 < (s : Int)) :
    explore stop (Frame.words slots) (placedFrom s (close ps ++ epilogue)) depths (standing slots)
      [((s : Int), depthOver slots 0)] = .ok () := by
  obtain ⟨A, rfl, hchart, hmark⟩ := h.charted (s := s) (B := []) (.nil _) (.inl ⟨rfl, rfl⟩)
  rw [List.append_nil] at hchart hmark
  apply explore_closed (M := fun o d => ∃ n : Nat, o = n ∧ Marks slots s A n d)
  · rintro o d d' ⟨n, rfl, hn⟩ ⟨m, hm, hm'⟩
    obtain rfl := Int.ofNat.inj hm
    exact hn.unique hm'
  · intro w hw
    obtain rfl := List.mem_singleton.mp hw
    exact ⟨s, rfl, hmark⟩
  · rintro o d ⟨n, rfl, hn⟩
    obtain ⟨p, hp, hoffset⟩ := hn.placed
    exact .inr ⟨lookup_eq_none_of_lt hbefore (Int.ofNat_le.mpr hn.le), p, hp, congrArg Int.ofNat hoffset⟩
  · rintro p hp d ⟨n, hn, hd⟩
    obtain rfl := Int.ofNat.inj hn
    exact hchart.onward hsize hstop p hp d hd

theorem effect_allocate (hslots : slots ≤ maxSlots) (offset : Nat) :
    effect (Frame.words slots) ⟨some 1, 0⟩ 1 ⟨offset, .subImm .rsp (Int32.ofNat (8 * slots))⟩
      = .ok (standing slots, depthOver slots 0) := by
  obtain ⟨haligned, hwords⟩ := adjustment_words (Nat.le_trans hslots (by decide : maxSlots ≤ maxDepth))
  simp only [effect, if_true, adjustEffect, haligned, hwords]
  simp [standing, depthOver]

/-- Verification accepts a routine with a balanced body. -/
theorem verify_assemble (h : Balanced slots ps 0 0) (henc : AllEncodable ps) (hslots : slots ≤ maxSlots)
    (hsize : (encodeAll (assemble slots ps)).length < 2 ^ 31) {layout : Layout} (hlayout : layout.size = slots) :
    verify (encodeAll (assemble slots ps)) layout 0 = .ok () := by
  have hbalanced := framed_balanced h hslots
  have hwhole : (encodeAll (assemble slots ps)).length =
      1 + (3 + (sizeAll (if slots > 0 then [.subImm .rsp (Int32.ofNat (8 * slots))] else []) +
        (piecesSize (framed slots ps) + 5))) := by
    rw [length_encodeAll, assemble_eq_framed]
    simp only [sizeAll, sizeAll_append, sizeAll_close]
    rfl
  rw [verify, decodeAll_encodeAll (assemble_encodable henc slots), hlayout]
  generalize (encodeAll (assemble slots ps)).length = stop at hsize hwhole
  rw [assemble_eq_framed]
  show explore stop (Frame.words slots) (placedFrom 0 _) [] {} [(((0 : Nat) : Int), 0)] = .ok ()
  -- The facts about the frame change up to here only: two instructions, and a third one if there are slots.
  have hpush : (Instr.push .rbp).size = 1 := rfl
  have hmove : (Instr.movReg .rbp .rsp).size = 3 := rfl
  rw [explore_row (a := 1) (g := {}) (by simp) rfl (by simp) (by omega) rfl,
    explore_row (a := 1) (g := ⟨some 1, 0⟩) (by simp [hpush]) rfl (by simp) (by omega) rfl, hpush, hmove]
  split_ifs at hwhole ⊢ with hpos
  · have hadjust : (Instr.subImm .rsp (Int32.ofNat (8 * slots))).size = 7 := rfl
    simp only [sizeAll, hadjust] at hwhole
    rw [List.cons_append, List.nil_append, explore_row (by simp) rfl (by simp) (by omega) (effect_allocate hslots _),
      hadjust]
    exact explore_standing hbalanced (by omega) (by omega) (by simp)
  · obtain rfl : slots = 0 := by omega
    simp only [sizeAll] at hwhole
    rw [List.nil_append]
    exact explore_standing hbalanced (by omega) (by omega) (by simp)

end

/-! ### The domain of generation -/

/-- The expressions that code is generated for when the seeds are known. -/
structure Compilable (e : Expr) (seeds : List String) : Prop where
  callFree : e.callFree = true
  independent : e.Independent
  bound : e.Bound seeds.toFinset
  slots : (seeds.toFinset ∪ e.writes.toFinset).card ≤ maxSlots
  depth : e.operandDepth ≤ maxDepth

/-- What is known before any code. -/
def seeded (seeds : List String) : Progress := ⟨(Layout.ofSeeds seeds).names, (Layout.ofSeeds seeds).names, 0⟩

/-- The code that is written and then verified. -/
def emitted? (e : Expr) (seeds : List String) : Option Bytes := (write e seeds).toOption.map Routine.code

section
variable {e : Expr} {seeds : List String} {ps : List Piece} {p : Progress}

theorem toFinset_ofSeeds (seeds : List String) : (Layout.ofSeeds seeds).names.toFinset = seeds.toFinset := by
  ext n
  rw [List.mem_toFinset, mem_ofSeeds, List.mem_toFinset]

/-- The slots are those of the seeds and of the names that are assigned. -/
theorem length_names (h : body 0 e (seeded seeds) = .ok (ps, p)) :
    p.names.length = (seeds.toFinset ∪ e.writes.toFinset).card := by
  have hnodup : p.names.Nodup := (body_grows h).nodup (nodup_ofSeeds seeds)
  rw [← List.toFinset_card_of_nodup hnodup, (body_flow h).names, seeded, toFinset_ofSeeds]

theorem emitted?_of_body (h : body 0 e (seeded seeds) = .ok (ps, p)) (hslots : p.names.length ≤ maxSlots) :
    emitted? e seeds = some (encodeAll (assemble p.names.length ps)) := by
  rw [emitted?, write_of_body h hslots]
  rfl

theorem balanced_of_seeded (h : body 0 e (seeded seeds) = .ok (ps, p)) (hslots : p.names.length ≤ maxSlots)
    (hsize : (encodeAll (assemble p.names.length ps)).length < 2 ^ 31) : Balanced p.names.length ps 0 0 := by
  refine body_balanced h (List.Subset.refl _) (Nat.le_refl _) hslots ?_
  rw [length_encodeAll, assemble, sizeAll_append, sizeAll_append, sizeAll_close, piecesSize_append] at hsize
  omega

/-- Verification accepts the code of every expression that has one. -/
theorem verify_body (h : body 0 e (seeded seeds) = .ok (ps, p)) (hslots : p.names.length ≤ maxSlots)
    (hsize : (encodeAll (assemble p.names.length ps)).length < 2 ^ 31) (count : Nat) :
    verify (encodeAll (assemble p.names.length ps)) ⟨p.names, count⟩ 0 = .ok () :=
  verify_assemble (balanced_of_seeded h hslots hsize) (body_encodable h) hslots hsize rfl

theorem generate_of_body (hcalls : e.callFree = true) (h : body 0 e (seeded seeds) = .ok (ps, p))
    (hslots : p.names.length ≤ maxSlots) (hsize : (encodeAll (assemble p.names.length ps)).length < 2 ^ 31) :
    ∃ r, generate e seeds = .ok r := by
  rw [generate, if_neg (by simp [hcalls]), bind_of_ok (write_of_body h hslots), verify_body h hslots hsize]
  exact ⟨_, rfl⟩

theorem generate_of_compilable (he : e.Operable) (h : Compilable e seeds)
    (hsize : ∀ code, emitted? e seeds = some code → code.length < 2 ^ 31) : ∃ r, generate e seeds = .ok r := by
  have hinside : Inside 0 e (seeded seeds) := by
    refine ⟨h.callFree, h.independent, ?_, ?_⟩
    · rw [seeded, toFinset_ofSeeds]
      exact h.bound
    · rw [Nat.zero_add]
      exact h.depth
  have hnames : (seeded seeds).names.toFinset ∪ e.writes.toFinset ⊆ seeds.toFinset ∪ e.writes.toFinset := by
    rw [seeded, toFinset_ofSeeds]
  obtain ⟨ps, p, hbody⟩ := body_of_inside he hinside (nodup_ofSeeds seeds) hnames h.slots
  have hslots : p.names.length ≤ maxSlots := by
    rw [length_names hbody]
    exact h.slots
  exact generate_of_body h.callFree hbody hslots (hsize _ (emitted?_of_body hbody hslots))

theorem compilable_of_generate {r : Routine} (h : generate e seeds = .ok r) :
    Compilable e seeds ∧ r.depth = e.operandDepth := by
  obtain ⟨ps, p, hbody, hslots, rfl⟩ := generate_eq_ok h
  have hinside := body_inside hbody (Nat.zero_le _)
  refine ⟨⟨hinside.callFree, hinside.independent, ?_, ?_, ?_⟩, ?_⟩
  · rw [← toFinset_ofSeeds]
    exact hinside.bound
  · rw [← length_names hbody]
    exact hslots
  · have := hinside.depth
    omega
  · have := (body_flow hbody).deepest (Nat.le_refl _)
    simp only [Nat.zero_add, Nat.zero_max] at this
    exact this

theorem write_error (he : e.Operable) {err : GenerateError} (h : write e seeds = .error err) : err.Documented := by
  rw [write_eq_compose] at h
  rcases error_of_bind h with h | ⟨⟨ps, p⟩, -, h⟩
  · exact body_error he h
  · dsimp only at h
    split at h
    · obtain rfl := Except.error.inj h
      trivial
    · cases h

theorem generate_error (he : e.Operable) (hsize : ∀ code, emitted? e seeds = some code → code.length < 2 ^ 31)
    {err : GenerateError} (h : generate e seeds = .error err) : err.Documented := by
  unfold generate at h
  split at h
  · obtain rfl := Except.error.inj h
    trivial
  · rcases error_of_bind h with h | ⟨r, hwrite, h⟩
    · exact write_error he h
    · obtain ⟨ps, p, hbody, hslots, rfl⟩ := compose_eq_ok (write_eq_compose e seeds ▸ hwrite)
      rw [verify_body hbody hslots (hsize _ (emitted?_of_body hbody hslots))] at h
      cases h

/-- Generation succeeds on its domain and nowhere else, tells the depth of the operand stack, and fails only for reasons
that lie in the expression: every branch is patched, every operand that is pushed is popped, and verification never
refuses what was generated. -/
theorem generate_domain (he : e.Operable) (hsize : ∀ code, emitted? e seeds = some code → code.length < 2 ^ 31) :
    ((∃ r, generate e seeds = .ok r) ↔ Compilable e seeds) ∧
      (∀ r, generate e seeds = .ok r → r.depth = e.operandDepth) ∧
      ∀ err, generate e seeds = .error err → err.Documented := by
  refine ⟨⟨?_, fun h => generate_of_compilable he h hsize⟩, fun r h => (compilable_of_generate h).2, fun err h =>
    generate_error he hsize h⟩
  rintro ⟨r, h⟩
  exact (compilable_of_generate h).1

end

/-- `if(if(x, y = 1, y = 2), y - x, 3 / x)`: both branches of the test assign the variable that is read behind it. -/
def settledChoice : Expr :=
  let at0 : Position := default
  .cond at0 at0
    (.cond at0 at0 (.ident at0 "x") (.assign at0 "y" at0 (.int at0 "1" 1)) (.assign at0 "y" at0 (.int at0 "2" 2)) at0)
    (.binary (.ident at0 "y") at0 Operator.subtract.number (.ident at0 "x"))
    (.binary (.int at0 "3" 3) at0 Operator.divide.number (.ident at0 "x")) at0

set_option maxRecDepth 4000 in
theorem settledChoice_emitted : ∀ code, emitted? settledChoice ["x"] = some code → code.length < 2 ^ 31 := by
  have h : (emitted? settledChoice ["x"]).all (fun code => code.length < 2 ^ 31) = true := by decide
  intro code hcode
  rw [hcode] at h
  exact of_decide_eq_true h

/-- The choice has a routine when its one seed is known, with one operand on the stack. -/
theorem settledChoice_generated : settledChoice.Operable ∧
    (∀ code, emitted? settledChoice ["x"] = some code → code.length < 2 ^ 31) ∧ Compilable settledChoice ["x"] ∧
    ∃ r, generate settledChoice ["x"] = .ok r ∧ r.depth = 1 := by
  have hoperable : settledChoice.Operable :=
    .cond _ _ _ (.cond _ _ _ (.ident _ _) (.assign _ _ _ (.int _ _ _)) (.assign _ _ _ (.int _ _ _)))
      (.binary _ (by decide) (.ident _ _) (.ident _ _)) (.binary _ (by decide) (.int _ _ _) (.ident _ _))
  have hcompilable : Compilable settledChoice ["x"] := by
    refine ⟨rfl, ?_, ?_, by decide, by decide⟩
    · simp [settledChoice, Expr.Independent]
    · simp [settledChoice, Expr.Bound, Expr.assigns]
  obtain ⟨hdomain, hdepth, -⟩ := generate_domain hoperable settledChoice_emitted
  obtain ⟨r, hr⟩ := hdomain.mpr hcompilable
  exact ⟨hoperable, settledChoice_emitted, hcompilable, r, hr, hdepth r hr⟩

end TierCalc.Routine
