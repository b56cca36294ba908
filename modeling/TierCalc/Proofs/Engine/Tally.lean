import TierCalc.Proofs.Engine.Submission
import TierCalc.Proofs.Eval.Effects

/-!
# How a run is counted

After its submission an expression runs. Whichever way it runs, that is counted once, as a value or as a failure, and on
the path that it took (`executeExpr_tallied`).
-/

namespace TierCalc.Engine

section
variable {P : Expr → Prop} {s t : Engine} {e : Expr} {fs : List PureFunction}

/-- How a run is counted: a value and a failure once each, and an operator that does not exist not at all. -/
inductive Tallied (e : Expr) (c : Counters) (compiled : Bool) : Except EngineError Int64 → Counters → Prop where
  | value (v : Int64) : Tallied e c compiled (.ok v) (c.execution 0 compiled false)
  | failure (r : EvalError) : Tallied e c compiled (.error (.failed r)) (c.execution 0 compiled true)
  | invalid (n : UInt8) (h : ¬ e.Operable) : Tallied e c compiled (.error (.invalidOperator n)) c

/-- The end of an evaluation is counted. -/
theorem conclude_tallied (fs : List PureFunction) (e : Expr) (s : Engine) (compiled : Bool) :
    Tallied e s.counters compiled
      (conclude compiled ((e.eval (Builtins.ofFunctions fs) (Overlay.on s.env) ()).beside s)).1
      (conclude compiled ((e.eval (Builtins.ofFunctions fs) (Overlay.on s.env) ()).beside s)).2.counters := by
  unfold conclude Run.beside
  rcases h : (e.eval (Builtins.ofFunctions fs) (Overlay.on s.env) ()).result with (f | n) | v
  · exact .failure f
  · exact .invalid n fun he => Expr.eval_operable he _ _ n h
  · exact .value v

theorem interpret_tallied (fs : List PureFunction) (e : Expr) (hs : s.closed = false) :
    Tallied e s.counters false (s.interpret (Builtins.ofFunctions fs) e).1
      (s.interpret (Builtins.ofFunctions fs) e).2.counters := by
  unfold interpret
  rw [Expr.eval_ofFunctions]
  dsimp only
  split
  · rename_i n h
    have hresult : (e.eval (Builtins.ofFunctions fs) (Overlay.on s.env) ()).result = .error (.invalidOperator n) := h
    exact .invalid n fun he => Expr.eval_operable he _ _ n hresult
  · simp only [Run.beside, hs, isStale_self, Bool.false_eq_true, if_false]
    exact conclude_tallied fs e s false

theorem runNative_counters (s : Engine) (fp : Fingerprint) (routine : Routine) (h : X64.Handle) :
    (∃ v t, s.runNative fp routine h = (some v, t) ∧ t.counters = s.counters.execution 0 true false) ∨
      ∃ t, s.runNative fp routine h = (none, t) ∧ t.counters = s.counters := by
  unfold runNative
  dsimp only
  split
  · split
    · exact .inr ⟨_, rfl, rfl⟩
    · split
      · exact .inl ⟨_, _, rfl, rfl⟩
      · exact .inr ⟨_, rfl, rfl⟩
  · exact .inr ⟨_, rfl, rfl⟩

/-- The run of a submission is counted on top of the submission. -/
theorem executeExpr_tallied (hs : Sound P s) (he : P e) (fs : List PureFunction) (cancelled : Bool) :
    ∃ compiled out, s.executeExpr (Builtins.ofFunctions fs) e cancelled
        = finished e (s.recorded e).count (s.recorded e).promote compiled out ∧
      Tallied e (s.receive e).counters compiled out.1 out.2.counters := by
  obtain ⟨hreceive, -⟩ := hs.receive he
  obtain ⟨arena, log, hsubmit, -⟩ := submit_eq s e
  rw [executeExpr_eq _ _ _ hs.unlocked hs.opened, hsubmit]
  have hinterpret := interpret_tallied fs e hreceive.opened
  cases ha : (s.receive e).artifactFor? e with
  | none =>
      rw [runCompiled, ha]
      exact ⟨false, _, rfl, hinterpret⟩
  | some a =>
      cases hh : a.handle? with
      | none =>
          rw [runCompiled_simulated fs ha hh hreceive.unlocked]
          exact ⟨true, _, rfl, conclude_tallied fs e (s.receive e) true⟩
      | some h =>
          rw [runCompiled_native _ ha hh]
          have hadvances := runNative_advances (s.receive e) e.fingerprint a.routine h
          rcases runNative_counters (s.receive e) e.fingerprint a.routine h with
            ⟨v, t, hrun, hcounters⟩ | ⟨t, hrun, hcounters⟩
          · rw [hrun]
            refine ⟨true, (.ok v, t), rfl, ?_⟩
            rw [hcounters]
            exact .value v
          · rw [hrun] at hadvances ⊢
            refine ⟨false, _, rfl, ?_⟩
            rw [← hcounters]
            exact interpret_tallied fs e (hreceive.advance hadvances).opened

end

end TierCalc.Engine
