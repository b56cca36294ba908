import TierCalc.Proofs.Routine.Call
import TierCalc.Proofs.Routine.Explored
import TierCalc.Proofs.Routine.Frame
import TierCalc.Proofs.Routine.Order

/-!
# Routines compute what their expressions mean

A routine that is called on a block with the values of its seeds leaves what evaluation of its expression says
(`Reflects`): the value in `rax` and exactly the assignments of the evaluation in the block, or a status in the block
if the evaluation fails, which it can only do on a zero divisor.

Two simulations meet here. The machine does what `Expr.backward` says (`routine_answers`), and that is what evaluation
says (`eval_agrees`).
-/

namespace TierCalc.Routine

open X64

/-! ### Blocks -/

def Area.frame (a : Area) (s : State) : Frame := (List.range (Frame.words a.slots)).map fun i => word a s (.block i)

theorem Area.getD_frame (a : Area) (s : State) {i : Nat} (h : a.Has (.block i)) :
    (a.frame s).getD i 0 = word a s (.block i) := by
  have hi : i < Frame.words a.slots := h
  rw [frame, List.getD_eq_getElem?_getD, List.getElem?_map, List.getElem?_range hi]
  rfl

def seedValues (seeds : List String) (env : Bindings) (name : String) : Option Int64 :=
  if name ∈ seeds then env.get? name else none

/-- Whether a value and a block are what a run of the evaluation has for them. -/
def Reflects {τ : Type} (layout : Layout) (run : Run Overlay τ Int64) (v : Int64) (f : Frame) : Prop :=
  match run.result with
  | .ok x => v = x ∧ f.status = 0 ∧ Bindings.ofList (Frame.assigned layout f) = run.scope.writes
  | .error fault => f.status ≠ 0 ∧
      ∃ (op : Operator) (location : Location), op.isDivision = true ∧
        fault = .error (.divisionByZero op.symbol location)

/-! ### Layouts -/

theorem mem_ofSeeds {seeds : List String} {n : String} : n ∈ (Layout.ofSeeds seeds).names ↔ n ∈ seeds := by
  have h (acc : List String) : n ∈ seeds.foldl Layout.add acc ↔ n ∈ acc ∨ n ∈ seeds := by
    induction seeds generalizing acc with
    | nil => simp
    | cons m seeds ih => rw [List.foldl_cons, ih, mem_add, List.mem_cons, or_assoc]
  exact (h []).trans (by simp)

theorem nodup_ofSeeds (seeds : List String) : (Layout.ofSeeds seeds).names.Nodup := by
  have h (acc : List String) (hacc : acc.Nodup) : (seeds.foldl Layout.add acc).Nodup := by
    induction seeds generalizing acc with
    | nil => exact hacc
    | cons m seeds ih => exact ih _ (nodup_add hacc m)
  exact h [] List.nodup_nil

theorem generate_names {e : Expr} {seeds : List String} {r : Routine} (h : generate e seeds = .ok r) :
    r.layout.names.Nodup ∧ (Layout.ofSeeds seeds).names <+: r.layout.names ∧
      r.layout.seedNames = (Layout.ofSeeds seeds).names ∧ ∀ n ∈ e.writes, n ∈ r.layout.names := by
  obtain ⟨ps, p, hb, -, rfl⟩ := generate_eq_ok h
  have grows := body_grows hb
  refine ⟨grows.nodup (nodup_ofSeeds seeds), grows.names, ?_, grows.writes⟩
  exact List.prefix_iff_eq_take.mp grows.names |>.symm

/-! ### From slots to evaluation -/

section
variable {τ : Type} (fns : Builtins τ) (w : τ) {e : Expr} {seeds : List String} {r : Routine} {env : Bindings}

/-- Code that starts with the values of the seeds ends as evaluation does. -/
theorem generate_agrees (h : generate e seeds = .ok r) {σ : Store}
    (hσ : ∀ n ∈ seeds, env.get? n = some (σ.value n)) :
    ∃ defined, Agree e.writes (Layout.ofSeeds seeds).names defined (.on env) w σ (e.eval fns (.on env) w)
      (e.backward σ) := by
  obtain ⟨ps, p, hb, -, rfl⟩ := generate_eq_ok h
  have hread : Reading e.reads (Layout.ofSeeds seeds).names (.on env) σ := by
    intro n _ hn
    rw [Overlay.get?, Overlay.on, Bindings.get?_empty, Option.none_or]
    exact hσ n (mem_ofSeeds.mp hn)
  exact ⟨p.defined, eval_agrees hb hread⟩

variable {s u : State}

theorem callArea_has_value {n : String} (hn : n ∈ r.layout.names) :
    (callArea r s).Has (.block (1 + 2 * r.layout.names.idxOf n)) := by
  have hslot : r.layout.names.idxOf n < r.layout.size := List.idxOf_lt_length_of_mem hn
  simp only [Area.Has, callArea, Frame.words]
  omega

theorem callArea_has_flag {n : String} (hn : n ∈ r.layout.names) :
    (callArea r s).Has (.block (2 + 2 * r.layout.names.idxOf n)) := by
  have hslot : r.layout.names.idxOf n < r.layout.size := List.idxOf_lt_length_of_mem hn
  simp only [Area.Has, callArea, Frame.words]
  omega

theorem word_seeded (hframe : (callArea r s).frame s = Frame.load r.layout (seedValues seeds env)) {i : Nat}
    (hi : (callArea r s).Has (.block i)) :
    word (callArea r s) s (.block i) = (Frame.load r.layout (seedValues seeds env)).getD i 0 := by
  rw [← Area.getD_frame _ _ hi, hframe]

/-- A block with the values of the seeds gives the seeds the values that they are bound to. -/
theorem value_seeded (h : generate e seeds = .ok r) (hbound : ∀ n ∈ seeds, (env.get? n).isSome)
    (hframe : (callArea r s).frame s = Frame.load r.layout (seedValues seeds env)) {n : String} (hn : n ∈ seeds) :
    env.get? n = some ((Store.ofBlock (callArea r s) r.layout.names s).value n) := by
  obtain ⟨hnodup, hprefix, -, -⟩ := generate_names h
  have hmem := hprefix.subset (mem_ofSeeds.mpr hn)
  obtain ⟨v, hv⟩ := Option.isSome_iff_exists.mp (hbound n hn)
  change env.get? n = some (word (callArea r s) s (.block (1 + 2 * r.layout.names.idxOf n)))
  rw [word_seeded hframe (callArea_has_value hmem), Frame.getD_load_value hnodup hmem, seedValues, if_pos hn, hv]
  rfl

theorem flag_seeded (hframe : (callArea r s).frame s = Frame.load r.layout (seedValues seeds env)) {n : String}
    (hn : n ∈ r.layout.names) : (Store.ofBlock (callArea r s) r.layout.names s).flag n = 0 := by
  change word (callArea r s) s (.block (2 + 2 * r.layout.names.idxOf n)) = 0
  rw [word_seeded hframe (callArea_has_flag hn), Frame.getD_load_even (by omega)]

/-- An answer of the machine is what evaluation says. -/
theorem reflects_of_answers (h : generate e seeds = .ok r) (hbound : ∀ n ∈ seeds, (env.get? n).isSome)
    (hframe : (callArea r s).frame s = Frame.load r.layout (seedValues seeds env))
    (hanswers : Answers (callArea r s) r.layout.names s u
      (e.backward (.ofBlock (callArea r s) r.layout.names s))) :
    Reflects r.layout (e.eval fns (.on env) w) (u.reg .rax) ((callArea r s).frame u) := by
  obtain ⟨hnodup, -, -, hwrites⟩ := generate_names h
  have hzero : (callArea r s).Has (.block 0) := by
    simp [Area.Has, Frame.words]
  obtain ⟨defined, hagree⟩ := generate_agrees fns w h fun n hn => value_seeded h hbound hframe hn
  have hstatus : ((callArea r s).frame u).status = word (callArea r s) u (.block 0) := Area.getD_frame _ _ hzero
  have hbackward := backward_status e (.ofBlock (callArea r s) r.layout.names s)
  generalize e.eval fns (Overlay.on env) w = run at hagree ⊢
  generalize e.backward (.ofBlock (callArea r s) r.layout.names s) = outcome at hagree hanswers hbackward
  cases hagree with
  | @value given v o σ gains written _ =>
      obtain ⟨hv, hst, hwords⟩ := hanswers
      have hmark (n : String) (hn : n ∈ r.layout.names) :
          ((callArea r s).frame u).getD (2 + 2 * r.layout.names.idxOf n) 0 = if (given n).isSome then 1 else 0 := by
        rw [Area.getD_frame _ _ (callArea_has_flag hn), (hwords n hn).2, gains.flag, flag_seeded hframe hn]
      have hword (n : String) (hn : n ∈ r.layout.names) :
          ((callArea r s).frame u).getD (1 + 2 * r.layout.names.idxOf n) 0 =
            (given n).getD ((Store.ofBlock (callArea r s) r.layout.names s).value n) := by
        rw [Area.getD_frame _ _ (callArea_has_value hn), (hwords n hn).1, gains.value]
      refine ⟨hv, ?_, (Bindings.ordered_ofList _).ext (gains.ordered Bindings.ordered_empty) fun n => ?_⟩
      · rw [hstatus, hst, word_seeded hframe hzero, Frame.getD_load_even rfl]
      · ext y
        rw [Bindings.get?_ofList_eq_some (Frame.nodup_assigned hnodup),
          Frame.mem_assigned_of_marks hnodup (fun n hn => hwrites n (written n hn)) hmark hword, gains.writes,
          Overlay.on, Bindings.get?_empty, Option.or_none]
  | @zeroDivisor op location o status σ division =>
      refine ⟨?_, op, location, division, rfl⟩
      rw [hstatus, hanswers]
      intro h0
      refine hbackward status rfl (Int32.toInt_inj.mp ?_)
      rw [← Int32.toInt_toInt64, h0]
      rfl

end

/-! ### Calls -/

section
variable {τ : Type} (fns : Builtins τ) (w : τ) {e : Expr} {seeds : List String} {r : Routine} {env : Bindings}

theorem run_reflects (h : generate e seeds = .ok r) (hsize : r.size < 2 ^ 31)
    (hbound : ∀ n ∈ seeds, (env.get? n).isSome) {s : State} (hpc : s.pc = r.entry) (hsep : (callArea r s).Separate)
    (hframe : (callArea r s).frame s = Frame.load r.layout (seedValues seeds env)) :
    ∃ t, (∀ fuel, r.size ≤ fuel → run (.ofBytes r.code) (s.load (s.reg .rsp)) fuel s = .returned t) ∧
      Reflects r.layout (e.eval fns (.on env) w) (t.reg .rax) ((callArea r s).frame t) := by
  obtain ⟨is, n, u, hcode, -, hn, hsteps, hret, hreturns, hanswers⟩ :=
    routine_answers h hsize hpc hsep (s.load (s.reg .rsp))
  refine ⟨(u.goto (u.pc + Instr.ret.size)).setReg .rsp (u.reg .rsp + 8), fun fuel hfuel => ?_, ?_⟩
  · have hlen := length_le_length_encodeAll is
    rw [← hcode] at hlen
    have hfuel' : n < fuel := by
      unfold Routine.size at hfuel
      omega
    obtain ⟨rest, rfl⟩ := Nat.exists_eq_add_of_lt hfuel'
    rw [Nat.add_assoc, hsteps.run, X64.run, step_ret hret hreturns.home]
  · rw [State.reg_setReg_of_ne _ (by decide), State.reg_goto]
    exact reflects_of_answers fns w h hbound hframe hanswers

theorem load_callState (entry : Int) (f : Frame) {i : Nat} (hi : i < 65) :
    (callState entry f).load (blockBase + Int64.ofNat (8 * i)) = f.getD i 0 := by
  have hbase : blockBase.toUInt64.toNat = 0x10000000 := rfl
  have haddr : (blockBase + Int64.ofNat (8 * i)).toUInt64.toNat = 0x10000000 + 8 * i := by
    rw [Int64.toUInt64_add, UInt64.toNat_add, Area.toNat_ofNat (by omega), hbase]
    omega
  have hexcess : State.excess (blockBase + Int64.ofNat (8 * i)) = 0 := by
    apply UInt64.toNat_inj.mp
    rw [State.excess, UInt64.toNat_mod, haddr]
    change (0x10000000 + 8 * i) % 8 = 0
    omega
  have hne : blockBase + Int64.ofNat (8 * i) ≠ stackTop := by
    intro e
    have htop : stackTop.toUInt64.toNat = 0x7FFF00000000 := rfl
    rw [e, htop] at haddr
    omega
  have hdist : (blockBase + Int64.ofNat (8 * i) - blockBase).toUInt64.toNat = 8 * i := by
    rw [State.toNat_sub, haddr, hbase]
    omega
  rw [State.load, if_pos hexcess]
  change callMemory f (blockBase + Int64.ofNat (8 * i)) = _
  rw [callMemory, if_neg hne, hdist]
  simp

theorem load_callState_home (entry : Int) (f : Frame) :
    (callState entry f).load ((callState entry f).reg .rsp) = returnAddress := by
  have hexcess : State.excess stackTop = 0 := by decide
  change (callState entry f).load stackTop = returnAddress
  rw [State.load, if_pos hexcess]
  change callMemory f stackTop = returnAddress
  rw [callMemory, if_pos rfl]

theorem callState_frame (entry : Int) {f : Frame} (hslots : r.layout.size ≤ maxSlots)
    (hf : f.length = Frame.words r.layout.size) :
    (callArea r (callState entry f)).frame (callState entry f) = f := by
  have hmax : r.layout.size ≤ 32 := hslots
  apply List.ext_getElem
  · rw [hf, Area.frame, List.length_map, List.length_range]
    rfl
  · intro i h1 h2
    have hi : i < 65 := by
      unfold Frame.words at hf
      omega
    simp only [Area.frame, List.getElem_map, List.getElem_range]
    refine (load_callState entry f hi).trans ?_
    rw [List.getD_eq_getElem?_getD, List.getElem?_eq_getElem h2]
    rfl

theorem blockWords_eq_frame (entry : Int) (f : Frame) (t : State) :
    blockWords (Frame.words r.layout.size) t = (callArea r (callState entry f)).frame t := by
  unfold blockWords Area.frame
  apply List.map_congr_left
  intro i _
  change t.load (blockBase + 8 * Int64.ofNat i) = t.load (blockBase + Int64.ofNat (8 * i))
  rw [Int64.ofNat_mul]
  rfl

/-- A call of a routine on the values of its seeds answers with what evaluation says. -/
theorem call_reflects (h : generate e seeds = .ok r) (hsize : r.size < 2 ^ 31)
    (hbound : ∀ n ∈ seeds, (env.get? n).isSome) :
    ∃ v f, call r.code r.entry (Frame.load r.layout (seedValues seeds env)) = some (v, f) ∧
      Reflects r.layout (e.eval fns (Overlay.on env) w) v f := by
  have hlength : (Frame.load r.layout (seedValues seeds env)).length = Frame.words r.layout.size := Frame.length_load
  have hframe := callState_frame r.entry (generate_bounds h).1 hlength
  obtain ⟨t, hrun, hreflects⟩ := run_reflects fns w h hsize hbound rfl (callState_separate h _ _) hframe
  refine ⟨_, _, ?_, hreflects⟩
  rw [load_callState_home] at hrun
  rw [call, hrun (callSteps r.code) (Nat.le_add_right _ _), Frame.length_load, Ending.answer?, blockWords_eq_frame]

/-- Compiled code computes what its expression means: a run from a block with the values of the seeds ends with the
value and the assignments of the evaluation, and with a status exactly if the evaluation fails, which it does only on a
zero divisor. -/
theorem generate_correct (h : generate e seeds = .ok r) (hsize : r.size < 2 ^ 31)
    (hbound : ∀ n ∈ seeds, (env.get? n).isSome) (s : State) (hpc : s.pc = r.entry) (hsep : (callArea r s).Separate)
    (hframe : (callArea r s).frame s = Frame.load r.layout (seedValues seeds env)) :
    ∃ t, (∀ fuel, r.size ≤ fuel → run (.ofBytes r.code) (s.load (s.reg .rsp)) fuel s = .returned t) ∧
      (∀ v, (e.eval fns (Overlay.on env) w).result = .ok v →
        t.reg .rax = v ∧ ((callArea r s).frame t).status = 0 ∧
        ∀ n y, (n, y) ∈ Frame.assigned r.layout ((callArea r s).frame t) ↔
          (e.eval fns (Overlay.on env) w).scope.writes.get? n = some y) ∧
      (∀ fault, (e.eval fns (Overlay.on env) w).result = .error fault →
        ((callArea r s).frame t).status ≠ 0 ∧
        ∃ (op : Operator) (location : Location), op.isDivision = true ∧
          fault = .error (.divisionByZero op.symbol location)) ∧
      (((callArea r s).frame t).status ≠ 0 → ∃ fault, (e.eval fns (Overlay.on env) w).result = .error fault) := by
  obtain ⟨t, hrun, hreflects⟩ := run_reflects fns w h hsize hbound hpc hsep hframe
  refine ⟨t, hrun, ?_⟩
  unfold Reflects at hreflects
  cases hresult : (e.eval fns (Overlay.on env) w).result with
  | ok v =>
      rw [hresult] at hreflects
      obtain ⟨hvalue, hstatus, hwrites⟩ := hreflects
      refine ⟨?_, by simp, fun h0 => absurd hstatus h0⟩
      rintro x ⟨⟩
      refine ⟨hvalue, hstatus, fun n y => ?_⟩
      rw [← hwrites, Bindings.get?_ofList_eq_some (Frame.nodup_assigned (generate_names h).1)]
  | error fault =>
      rw [hresult] at hreflects
      refine ⟨by simp, ?_, fun _ => ⟨fault, rfl⟩⟩
      rintro x ⟨⟩
      exact hreflects

end

theorem sumWithQuotient_correct :
    ∃ r s t, generate sumWithQuotient ["x", "z"] = .ok r ∧
      s = callState r.entry (Frame.load r.layout (seedValues ["x", "z"] (.ofList [("x", -7), ("z", 2)]))) ∧
      run (.ofBytes r.code) returnAddress r.size s = .returned t ∧
      t.reg .rax = 2 ∧ ((callArea r s).frame t).status = 0 ∧
      ("y", 5) ∈ Frame.assigned r.layout ((callArea r s).frame t) := by
  obtain ⟨r, h, hsize⟩ := sumWithQuotient_generated
  have hbound : ∀ n ∈ ["x", "z"], ((Bindings.ofList [("x", -7), ("z", 2)]).get? n).isSome := by decide
  obtain ⟨t, hrun, hok, -⟩ := generate_correct (Builtins.mk []) () h hsize hbound _ rfl (callState_separate h _ _)
    (callState_frame r.entry (generate_bounds h).1 Frame.length_load)
  obtain ⟨hv, hstatus, hassigned⟩ := hok 2 (by decide)
  rw [load_callState_home] at hrun
  exact ⟨r, _, t, h, rfl, hrun r.size le_rfl, hv, hstatus, (hassigned "y" 5).mpr (by decide)⟩

end TierCalc.Routine
