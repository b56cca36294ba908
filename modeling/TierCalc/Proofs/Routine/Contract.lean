import TierCalc.Proofs.Routine.Call
import TierCalc.Proofs.Routine.Explored

/-!
# The calling contract

Whatever registers, stack and block hold when a routine is entered, it keeps the contract under which it is called
(`Routine.KeepsContract`): it comes back to the return address in a bounded number of steps, with the stack and the
registers of the caller as they were, after stores within the block and the words of the stack that it was given, and
without a division that the machine cannot do.
-/

namespace TierCalc.Routine

open X64

/-- What a caller relies on when a routine is entered in a state; the return address is the word that the stack
pointer points at. -/
structure KeepsContract (r : Routine) (s : State) : Prop where
  /-- The routine takes at most one step for each instruction, the last of them at a return to the caller, who finds
  the stack and four registers as they were and nothing changed outside the memory of the call. -/
  returns : ∃ placed n t u, decodeAll r.code = .ok placed ∧ n + 1 ≤ placed.length ∧
    Reaches (.ofBytes r.code) (s.load (s.reg .rsp)) n s t ∧
    (Program.ofBytes r.code).fetch? t.pc = some (.ret, Instr.ret.size) ∧ t.reg .rsp = s.reg .rsp ∧
    t.reg .rbx = s.reg .rbx ∧ t.reg .rbp = s.reg .rbp ∧ t.reg .rsi = s.reg .rsi ∧ t.reg .rdi = s.reg .rdi ∧
    step (.ofBytes r.code) (s.load (s.reg .rsp)) t = .returned u ∧ u.reg .rsp = s.reg .rsp + 8 ∧
    ∀ x, (∀ a, (callArea r s).Allows a → State.Apart a x) → t.load x = s.load x
  /-- Every store on the way goes to a word of the block or to one of the words below the return address. -/
  stores : ∀ n t i size a, Reaches (.ofBytes r.code) (s.load (s.reg .rsp)) n s t →
    (Program.ofBytes r.code).fetch? t.pc = some (i, size) → i.storesAt? t = some a →
    (∃ k, k < 1 + 2 * r.layout.size ∧ a = s.reg .rdi + Int64.ofNat (8 * k)) ∨
    ∃ k, 1 ≤ k ∧ k ≤ 1 + r.layout.size + r.depth ∧ a = s.reg .rsp - Int64.ofNat (8 * k)
  /-- Every division on the way has a quotient that fits. -/
  divides : ∀ n t q size, Reaches (.ofBytes r.code) (s.load (s.reg .rsp)) n s t →
    (Program.ofBytes r.code).fetch? t.pc = some (.idiv q, size) →
    t.reg q ≠ 0 ∧ ¬ (t.reg .rax = Int64.minValue ∧ t.reg q = -1)
  /-- The words below the return address are at most these. -/
  room : r.layout.size ≤ 32 ∧ r.depth ≤ 48

/-- Every generated routine keeps the calling contract, from every state in which it can be entered. -/
theorem generate_keepsContract {e : Expr} {seeds : List String} {r : Routine} (h : generate e seeds = .ok r)
    (hsize : r.size < 2 ^ 31) (s : State) (hpc : s.pc = r.entry) (hsep : (callArea r s).Separate) :
    r.KeepsContract s := by
  obtain ⟨is, n, t, hcode, hencodable, hn, hsteps, hret, hreturns, -⟩ :=
    routine_answers h hsize hpc hsep (s.load (s.reg .rsp))
  have hdecode : decodeAll r.code = .ok (placedFrom 0 is) := by
    rw [hcode, decodeAll_encodeAll hencodable]
  have hharmless {k : Nat} {u : State} {i : Instr} {size : Nat}
      (hu : Reaches (.ofBytes r.code) (s.load (s.reg .rsp)) k s u)
      (hf : (Program.ofBytes r.code).fetch? u.pc = some (i, size)) : Harmless (callArea r s).Allows i u := by
    obtain ⟨-, rfl | ⟨j, size', hj, ho⟩⟩ := hsteps.reached hret hu
    · rw [hret] at hf
      obtain ⟨rfl, rfl⟩ := Prod.mk.inj (Option.some.inj hf)
      exact ⟨by simp [Instr.storesAt?], by simp⟩
    · rw [hj] at hf
      obtain ⟨rfl, rfl⟩ := Prod.mk.inj (Option.some.inj hf)
      exact ho
  refine ⟨?_, ?_, ?_, generate_bounds h⟩
  · have hstep := step_ret hret hreturns.home
    refine ⟨_, n, t, _, hdecode, by rwa [length_placedFrom], hsteps.mono fun _ _ _ => trivial, hret, hreturns.rsp,
      hreturns.regs .rbx (by decide) (by decide) (by decide), hreturns.regs .rbp (by decide) (by decide) (by decide),
      hreturns.regs .rsi (by decide) (by decide) (by decide), hreturns.regs .rdi (by decide) (by decide) (by decide),
      hstep, ?_, fun x hx => hsteps.load_of_harmless hx⟩
    rw [State.reg_setReg_self, hreturns.rsp]
  · intro k u i size a hu hf ha
    exact (hharmless hu hf).stores a ha
  · intro k u q size hu hf
    exact (hharmless hu hf).divides q rfl

theorem sumWithQuotient_keepsContract :
    ∃ r, generate sumWithQuotient ["x", "z"] = .ok r ∧ r.size < 2 ^ 31 ∧
      r.KeepsContract (callState r.entry [3, 1, 4, 1, 5, 9, 2]) := by
  obtain ⟨r, h, hsize⟩ := sumWithQuotient_generated
  exact ⟨r, h, hsize, generate_keepsContract h hsize _ rfl (callState_separate h _ _)⟩

end TierCalc.Routine
