import TierCalc.Proofs.Engine.Execution
import TierCalc.Proofs.Eval.Effects

/-!
# Evaluation on a snapshot

An engine evaluates an expression on a snapshot of its variables, and others may change the variables meanwhile. It
evaluates once more if a name that the expression reads has changed, and commits to the variables as they are then.

* `optimistic`: the whole procedure, for any snapshot and any variables that it finds in the end. `interpret` is the
  case in which nobody but builtins came in between.
* `optimistic_agrees`: the outcome is that of evaluation on the variables that were found, as if nobody had come in
  between.
-/

namespace TierCalc

/-- Whether two errors have the same kind, message and location. -/
def EngineError.Alike : EngineError → EngineError → Prop
  | .failed e, .failed f => e.cause.code = f.cause.code ∧ e.message = f.message ∧ e.location = f.location
  | .invalidOperator m, .invalidOperator n => m = n
  | _, _ => False

theorem EngineError.alike_ofFault {f g : Fault} (h : f.Alike g) : (ofFault f).Alike (ofFault g) := by
  cases h with
  | @error e f hcause hlocation =>
      refine ⟨?_, ?_, hlocation⟩
      · rw [hcause]
      · rw [EvalError.message, EvalError.message, hcause, hlocation]
  | invalidOperator n => exact rfl

namespace Engine

/-- Ends an evaluation on a snapshot: if the snapshot is out of date, what counts is a second evaluation. -/
def reconcile (fns : Builtins Engine) (e : Expr) (snapshot : Bindings) (r : Run Overlay Engine Int64) :
    Except EngineError Int64 × Engine :=
  match r.result with
  | .error (.invalidOperator n) => (.error (.invalidOperator n), r.world)
  | _ =>
      if r.world.closed then (.error .closed, r.world)
      else if e.isStale snapshot r.world.env then
        conclude false (evaluateLocked fns e (r.world.report (.inputsChanged e.fingerprint)))
      else conclude false r

/-- Evaluates an expression on a snapshot beside an engine, whose variables may be others. -/
def optimistic (fns : Builtins Engine) (e : Expr) (snapshot : Bindings) (s : Engine) :
    Except EngineError Int64 × Engine :=
  reconcile fns e snapshot (e.eval fns (Overlay.on snapshot) s)

theorem interpret_eq (fns : Builtins Engine) (e : Expr) (s : Engine) :
    s.interpret fns e = optimistic fns e s.env s := rfl

/-- Whether an answer and a state are those of a plain execution on variables: the same value and the same variables
after it, or errors alike and the variables as they were. -/
def Agrees (env : Bindings) (out : Except EngineError Int64 × Engine) (plain : Except EngineError Int64 × Bindings) :
    Prop :=
  match plain with
  | (.ok v, env') => out.1 = .ok v ∧ out.2.env = env'
  | (.error r, env') => (∃ r', out.1 = .error r' ∧ r'.Alike r) ∧ out.2.env = env ∧ env' = env

section
variable {fs : List PureFunction} {e : Expr} {snapshot : Bindings} {s : Engine}

theorem Executes.agrees {out : Except EngineError Int64 × Engine} (h : Executes fs e s out) :
    Agrees s.env out (Plain.execute fs e s.env) := by
  obtain ⟨hanswer, henv, -⟩ := h
  unfold Plain.execute at hanswer henv ⊢
  cases hresult : (e.eval (Builtins.ofFunctions fs) (Overlay.on s.env) ()).result with
  | ok v =>
      simp only [hresult] at hanswer henv ⊢
      exact ⟨hanswer, henv⟩
  | error f =>
      simp only [hresult] at hanswer henv ⊢
      exact ⟨⟨_, hanswer, EngineError.alike_ofFault (.refl f)⟩, henv, rfl⟩

theorem evaluateLocked_ofFunctions (fs : List PureFunction) (e : Expr) (s : Engine) :
    evaluateLocked (Builtins.ofFunctions fs) e s
      = (e.eval (Builtins.ofFunctions fs) (Overlay.on s.env) ()).beside { s with locked := false } := by
  rw [evaluateLocked, Expr.eval_ofFunctions]
  rfl

/-- A second evaluation answers for the variables as they are. -/
theorem reevaluated_agrees (fs : List PureFunction) (e : Expr) (s : Engine) :
    Agrees s.env (conclude false (evaluateLocked (Builtins.ofFunctions fs) e (s.report (.inputsChanged e.fingerprint))))
      (Plain.execute fs e s.env) := by
  rw [evaluateLocked_ofFunctions]
  exact (conclude_executes fs e { s.report (.inputsChanged e.fingerprint) with locked := false } false).agrees

theorem get?_of_fresh (h : e.isStale snapshot s.env = false) : ∀ n ∈ e.reads, snapshot.get? n = s.env.get? n := by
  intro n hn
  have hfresh : s.env.get? n = snapshot.get? n := by simpa using List.any_eq_false.mp h n hn
  exact hfresh.symm

/-- An evaluation on a snapshot that is up to date answers for the variables as they are. -/
theorem concluded_agrees (h : e.isStale snapshot s.env = false) :
    Agrees s.env (conclude false ((e.eval (Builtins.ofFunctions fs) (Overlay.on snapshot) ()).beside s))
      (Plain.execute fs e s.env) := by
  have hparallel : Run.Parallel snapshot s.env
      (e.eval (Builtins.ofFunctions fs) (Overlay.mk snapshot {}) ())
      (e.eval (Builtins.ofFunctions fs) (Overlay.mk s.env {}) ()) := Expr.eval_parallel e (get?_of_fresh h) {} ()
  unfold Plain.execute Overlay.on
  generalize e.eval (Builtins.ofFunctions fs) (Overlay.mk snapshot {}) () = r at hparallel ⊢
  generalize e.eval (Builtins.ofFunctions fs) (Overlay.mk s.env {}) () = q at hparallel ⊢
  -- Both runs wrote the same, and what they wrote goes on top of the engine's own variables.
  cases hparallel with
  | value v w t => exact ⟨rfl, rfl⟩
  | @fault f g halike w t =>
      refine ⟨⟨.ofFault f, ?_, EngineError.alike_ofFault halike⟩, ?_, rfl⟩
      · cases f <;> rfl
      · cases f <;> rfl

/-- A run that ended in an open engine counts unless the snapshot is out of date. -/
theorem reconcile_ended {fns : Builtins Engine} {r : Run Overlay Engine Int64}
    (hends : ∀ n, r.result ≠ .error (.invalidOperator n)) (hopen : r.world.closed = false) :
    reconcile fns e snapshot r =
      if e.isStale snapshot r.world.env then
        conclude false (evaluateLocked fns e (r.world.report (.inputsChanged e.fingerprint)))
      else conclude false r := by
  unfold reconcile
  split
  · rename_i n hresult
    exact absurd hresult (hends n)
  · rw [hopen, if_neg Bool.false_ne_true]

/-- If evaluation on the snapshot ends, the outcome agrees with evaluation on the variables as they are. -/
theorem optimistic_agrees (hopen : s.closed = false)
    (hends : ∀ n, (e.eval (Builtins.ofFunctions fs) (Overlay.on snapshot) ()).result ≠ .error (.invalidOperator n)) :
    Agrees s.env (optimistic (Builtins.ofFunctions fs) e snapshot s) (Plain.execute fs e s.env) := by
  unfold optimistic
  rw [Expr.eval_ofFunctions, reconcile_ended hends hopen]
  split_ifs with hstale
  · exact reevaluated_agrees fs e s
  · exact concluded_agrees (Bool.eq_false_of_not_eq_true hstale)

/-- An operator number without an operator ends everything, and nothing is committed. -/
theorem optimistic_invalidOperator {n : UInt8}
    (h : (e.eval (Builtins.ofFunctions fs) (Overlay.on snapshot) ()).result = .error (.invalidOperator n)) :
    optimistic (Builtins.ofFunctions fs) e snapshot s = (.error (.invalidOperator n), s) := by
  unfold optimistic
  rw [Expr.eval_ofFunctions]
  unfold reconcile
  simp only [Run.beside, h]

end

/-- Evaluation on any snapshot, with a second evaluation exactly if a name that the expression reads has changed, has
the outcome of evaluation on the variables as they are in the end: the same value and the same variables, or the same
error but for the hint and nothing committed. The one exception is an expression with an operator number that means no
operator, if evaluation on the snapshot meets it. An engine evaluates in this way on its own variables. -/
theorem optimistic_atomic (fs : List PureFunction) (e : Expr) (snapshot : Bindings) {s : Engine}
    (hopen : s.closed = false) :
    (e.Operable → Agrees s.env (optimistic (Builtins.ofFunctions fs) e snapshot s) (Plain.execute fs e s.env)) ∧
    (Agrees s.env (optimistic (Builtins.ofFunctions fs) e snapshot s) (Plain.execute fs e s.env) ∨
      ∃ n, (e.eval (Builtins.ofFunctions fs) (Overlay.on snapshot) ()).result = .error (.invalidOperator n) ∧
        optimistic (Builtins.ofFunctions fs) e snapshot s = (.error (.invalidOperator n), s)) ∧
    ∀ fns : Builtins Engine, s.interpret fns e = optimistic fns e s.env s := by
  refine ⟨?_, ?_, fun fns => interpret_eq fns e s⟩
  · intro he
    exact optimistic_agrees hopen (Expr.eval_operable he (Overlay.on snapshot) ())
  · by_cases hends : ∃ n, (e.eval (Builtins.ofFunctions fs) (Overlay.on snapshot) ()).result
        = .error (.invalidOperator n)
    · obtain ⟨n, hn⟩ := hends
      exact .inr ⟨n, hn, optimistic_invalidOperator hn⟩
    · exact .inl (optimistic_agrees hopen fun n hn => hends ⟨n, hn⟩)

def increment : Expr :=
  .assign default "n" default (.binary (.ident default "n") default Operator.add.number (.int default "1" 1))

theorem increment_operable : increment.Operable :=
  .assign _ _ _ (.binary _ (by decide) (.ident _ _) (.int _ _ _))

/-- An increment that was evaluated while others went on from one to five makes six of it. -/
theorem increment_atomic : ∃ s, Engine.new {} (.ofList [("n", 5)]) = .ok s ∧ s.closed = false ∧
    increment.isStale (.ofList [("n", 1)]) s.env = true ∧
    (optimistic (Builtins.ofFunctions []) increment (.ofList [("n", 1)]) s).1 = .ok 6 ∧
    (optimistic (Builtins.ofFunctions []) increment (.ofList [("n", 1)]) s).2.env = .ofList [("n", 6)] := by
  obtain ⟨s, hnew, hopen, henv⟩ : ∃ s, Engine.new {} (.ofList [("n", 5)]) = .ok s ∧ s.closed = false ∧
      s.env = .ofList [("n", 5)] := ⟨_, rfl, rfl, rfl⟩
  obtain ⟨hagrees, -, -⟩ := optimistic_atomic [] increment (.ofList [("n", 1)]) hopen
  have hplain : Plain.execute [] increment s.env = (.ok 6, .ofList [("n", 6)]) := by
    rw [henv]
    rfl
  have hout := hagrees increment_operable
  rw [hplain] at hout
  refine ⟨s, hnew, hopen, ?_, hout.1, hout.2⟩
  rw [henv]
  decide

end Engine

end TierCalc
