import TierCalc.Proofs.Routine.Accepted
import TierCalc.Proofs.Routine.Safety

/-!
# Generated code is disciplined

Verification takes for granted that code is `Disciplined`: there is code that it accepts and that is not safe. None of
that code is ever generated. A generated routine sets its frame up before anything else, all of its branches go forward,
and only its last three instructions take the frame down.

* `covers_assemble`: the offsets after the set-up are closed under the flow of control, and so is that of the return.
* `generate_disciplined` and `generate_safe`: generated code is disciplined, hence safe from whatever state it is
  entered in.
-/

namespace TierCalc.Routine

open X64 Verify

/-- Whether an instruction only branches forward. -/
def Forward (i : Instr) : Prop := ∀ d ∈ i.branch?, 0 ≤ d.toInt

theorem forward_of_straight {i : Instr} (h : i.branch? = none) : Forward i := by
  simp [Forward, h]

theorem forward_of_branch {i : Instr} {n : Nat} (h : i.branch? = some (Int32.ofNat n)) (hn : n < 2 ^ 31) :
    Forward i := by
  simp [Forward, h, toInt_ofNat hn]

theorem Forward.stop_le {p : Placed} {size : Nat} {o : Int} (h : Forward p.instr) (ho : o ∈ onward size p) :
    (p.stop : Int) ≤ o := by
  unfold onward at ho
  cases hnext : successors size p with
  | error => simp [hnext, Except.toOption] at ho
  | ok next =>
      have htarget {d : Int32} (hb : p.instr.branch? = some d) : (p.stop : Int) ≤ p.target := by
        have := h d hb
        simp only [Placed.target, hb]
        omega
      simp only [hnext, Except.toOption, Option.getD_some] at ho
      rcases successors_cases hnext with ⟨-, rfl⟩ | ⟨d, hi, rfl⟩ | ⟨c, d, hi, rfl⟩ | ⟨-, -, rfl⟩
      · cases ho
      · obtain rfl := List.mem_singleton.mp ho
        exact htarget (by rw [hi]; rfl)
      · rcases List.mem_pair.mp ho with rfl | rfl
        · exact Int.le_refl _
        · exact htarget (by rw [hi]; rfl)
      · obtain rfl := List.mem_singleton.mp ho
        exact Int.le_refl _

theorem inner_of_branch {i : Instr} {d : Int32} (h : i.branch? = some d) : Inner i := by
  cases i with
  | jcc _ _ | jmp _ => exact ⟨trivial, rfl, by simp⟩
  | _ => cases h

theorem Balanced.inner {slots c c' : Nat} {ps : List Piece} (h : Balanced slots ps c c') :
    ∀ i, .instr i ∈ ps → Inner i ∧ Forward i := by
  have hbranch {i : Instr} {n : Nat} (hi : i.branch? = some (Int32.ofNat n)) (hn : n < 2 ^ 31) :
      Inner i ∧ Forward i := ⟨inner_of_branch hi, forward_of_branch hi hn⟩
  induction h with
  | nil => simp
  | instr hi => simpa using ⟨hi.inner, forward_of_straight hi.straight⟩
  | append _ _ ihp ihq =>
      intro i hi
      rcases List.mem_append.mp hi with hi | hi
      · exact ihp i hi
      · exact ihq i hi
  | choice cond _ _ _ hsize ihyes ihno =>
      simp only [List.mem_cons, List.mem_append, Piece.instr.injEq]
      rintro i (rfl | hi | rfl | hi)
      · exact hbranch rfl (by omega)
      · exact ihyes i hi
      · exact hbranch rfl (by omega)
      · exact ihno i hi
  | escape cond _ _ _ hsize ihleave ihrest =>
      simp only [List.mem_cons, List.mem_append, Piece.instr.injEq, reduceCtorEq, false_or]
      rintro i (rfl | hi | hi)
      · exact hbranch rfl hsize
      · exact ihleave i hi
      · exact ihrest i hi

/-! ### Routines -/

/-- The set-up of a frame. -/
def setUp (slots : Nat) : List Instr :=
  .push .rbp :: .movReg .rbp .rsp :: if slots > 0 then [.subImm .rsp (Int32.ofNat (8 * slots))] else []

section
variable {slots size : Nat} {ps : List Piece}

theorem setUp_regular (hslots : slots ≤ maxSlots) :
    ∀ i ∈ setUp slots, i.Regular ∧ i.isBranch = false ∧ i ≠ .pop .rbp := by
  have himm : 0 ≤ (Int32.ofNat (8 * slots)).toInt := by
    simp only [maxSlots] at hslots
    rw [toInt_ofNat (by omega)]
    omega
  simp only [setUp, List.forall_mem_cons]
  refine ⟨by decide, by decide, ?_⟩
  split_ifs
  · rw [List.forall_mem_singleton]
    exact ⟨⟨by decide, by decide, fun _ => himm⟩, rfl, by simp⟩
  · simp

theorem covers_setUp (hslots : slots ≤ maxSlots) {b : Nat} (hb : sizeAll (setUp slots) ≤ b) :
    ∀ p ∈ placedFrom 0 (setUp slots), Covers (sizeAll (setUp slots) ≤ ·) (b ≤ ·) size p := by
  intro p hp
  obtain ⟨hregular, hbranch, hpop⟩ := setUp_regular hslots _ (instr_mem_of_mem_placedFrom hp)
  have hpos := p.instr.size_pos
  have hstop := stop_le_of_mem_placedFrom hp
  rw [Placed.stop] at hstop
  refine ⟨hregular, ?_, by omega, ?_, by omega⟩
  · rintro (h | h)
    · simp [hbranch] at h
    · omega
  · rintro (h | h)
    · exact absurd h hpop
    · omega

theorem covers_inner {is : List Instr} (hi : ∀ i ∈ is, Inner i ∧ Forward i) {a b s : Nat} (ha : a ≤ s)
    (hb : s + sizeAll is ≤ b) : ∀ p ∈ placedFrom s is, Covers (a ≤ ·) (b ≤ ·) size p := by
  intro p hp
  obtain ⟨⟨hregular, hsettled, hpop⟩, hforward⟩ := hi _ (instr_mem_of_mem_placedFrom hp)
  have hpos := p.instr.size_pos
  have hstart := le_of_mem_placedFrom hp
  have hstop := stop_le_of_mem_placedFrom hp
  rw [Placed.stop] at hstop
  refine ⟨hregular, fun _ o ho => ?_, fun _ => hsettled, ?_, by omega⟩
  · have hlater := hforward.stop_le ho
    rw [Placed.stop] at hlater
    omega
  · rintro (h | h)
    · exact absurd h hpop
    · omega

theorem covers_return {a s : Nat} (ha : a ≤ s) :
    ∀ p ∈ placedFrom s [.pop .rbp, .ret], Covers (a ≤ ·) ((s + 1 : Nat) ≤ ·) size p := by
  have hpop : (Instr.pop .rbp).Regular := by decide
  have hplaced : placedFrom s [.pop .rbp, .ret] = [⟨s, .pop .rbp⟩, ⟨s + 1, .ret⟩] := rfl
  have hlater {p : Placed} {o : Int} (hp : p.instr.branch? = none) (ho : o ∈ onward size p) : (p.stop : Int) ≤ o :=
    (forward_of_straight hp).stop_le ho
  simp only [hplaced, List.forall_mem_cons]
  refine ⟨⟨hpop, fun _ o ho => ?_, fun _ => rfl, fun _ o ho => hlater rfl ho, fun _ => rfl⟩,
    ⟨trivial, fun _ o ho => ?_, fun _ => rfl, fun _ o ho => ?_, fun _ => rfl⟩, by simp⟩
  · have hstop : ((s + 1 : Nat) : Int) ≤ o := hlater rfl ho
    omega
  all_goals
    have hstop : ((s + 2 : Nat) : Int) ≤ o := hlater rfl ho
    omega

/-- The offsets after the set-up, and that of the return, cover a routine with a balanced body. -/
theorem covers_assemble (h : Balanced slots ps 0 0) (hslots : slots ≤ maxSlots)
    (hsize : (encodeAll (assemble slots ps)).length < 2 ^ 31) :
    ∃ a b : Nat, ∀ p ∈ placedFrom 0 (assemble slots ps), Covers (a ≤ ·) (b ≤ ·) size p := by
  have hshape : assemble slots ps
      = setUp slots ++ (close (framed slots ps) ++ [.movReg .rsp .rbp]) ++ [.pop .rbp, .ret] := by
    rw [assemble_eq_framed, setUp, epilogue]
    simp
  rw [length_encodeAll, hshape, sizeAll_append, sizeAll_append, sizeAll_append, sizeAll_close] at hsize
  have hinner : ∀ i ∈ close (framed slots ps) ++ [.movReg .rsp .rbp], Inner i ∧ Forward i := by
    rw [List.forall_mem_append, List.forall_mem_singleton]
    exact ⟨forall_mem_close (framed_balanced h hslots).inner fun n hn =>
      ⟨inner_of_branch rfl, forward_of_branch rfl (by omega)⟩, by decide, forward_of_straight rfl⟩
  rw [hshape, placedFrom_append, placedFrom_append]
  simp only [List.forall_mem_append, Nat.zero_add]
  refine ⟨sizeAll (setUp slots), _, ⟨covers_setUp hslots ?_, covers_inner hinner (Nat.le_refl _) ?_⟩, covers_return ?_⟩
  all_goals
    simp only [sizeAll_append]
    omega

/-- Generated code keeps to what verification takes for granted. -/
theorem generate_disciplined {e : Expr} {seeds : List String} {r : Routine} (h : generate e seeds = .ok r)
    (hsize : r.size < 2 ^ 31) : Disciplined r.code r.entry := by
  obtain ⟨ps, p, hbody, hslots, rfl⟩ := generate_eq_ok h
  obtain ⟨a, b, hcovers⟩ := covers_assemble (balanced_of_seeded hbody hslots hsize) hslots hsize
  exact .of_covers (decodeAll_encodeAll (assemble_encodable (body_encodable hbody) _)) hcovers _

/-- Whatever a generated routine is entered with, every instruction that control comes to is safe. -/
theorem generate_safe {e : Expr} {seeds : List String} {r : Routine} (h : generate e seeds = .ok r)
    (hsize : r.size < 2 ^ 31) (home : Word) {s₀ s : State} (hpc : s₀.pc = r.entry) {l : Ledger}
    (htraced : Traced (Program.ofBytes r.code) home s₀ l s) :
    ∃ i size, (Program.ofBytes r.code).fetch? s.pc = some (i, size) ∧
      Safe (Frame.words r.layout.size) (s₀.reg .rdi) (s₀.reg .rsp) l s i := by
  have hd := generate_disciplined h hsize
  obtain ⟨ps, p, hbody, hslots, rfl⟩ := generate_eq_ok h
  obtain ⟨visits, hc⟩ := verify_charted hd (verify_body hbody hslots hsize _)
  exact htraced.safe hc hd hpc

end

end TierCalc.Routine
