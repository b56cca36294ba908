import TierCalc.Proofs.Engine.Stock
import TierCalc.Proofs.Eval.Functions
import TierCalc.Proofs.Routine.Correctness

/-!
# Executing an expression on an engine

With functions that only compute, an execution is a submission (`receive`) and then a run that changes nothing but the
variables, the counters and the log, and generates no code (`Advances`), so the code that the engine holds stays sound
(`Sound.executeExpr`).

`Plain.execute` is what an execution should answer and do to the variables: evaluation on an overlay, whose
assignments are committed if there is a value. Evaluation in the engine does that, and so does compiled code that was
generated from the expression (`runNative_executes`).
-/

namespace TierCalc

/-- The answer of evaluation over variables, and the variables afterwards: with the assignments if there is a value,
and else as they were. -/
def Plain.execute (fs : List PureFunction) (e : Expr) (env : Bindings) : Except EngineError Int64 × Bindings :=
  let r := e.eval (Builtins.ofFunctions fs) (Overlay.on env) ()
  match r.result with
  | .ok v => (.ok v, r.scope.commit env)
  | .error f => (.error (.ofFault f), env)

/-- The fingerprint of an expression that became hot, and its count then. -/
def Event.hot? : Event → Option (Fingerprint × UInt64)
  | .hot fp count => some (fp, count)
  | _ => none

namespace Engine

/-- The generations of code that an engine tells of: those that gave code and those that did not, as counted, and the
expressions that became hot, as logged. -/
structure Generations where
  succeeded : UInt64
  failed : UInt64
  hot : List (Fingerprint × UInt64)

/-- The generations so far. -/
def generations (s : Engine) : Generations :=
  ⟨s.counters.compilations, s.counters.compileFailures, s.log.toList.filterMap Event.hot?⟩

/-- One more generation, for a fingerprint with a count. -/
def Generations.add (g : Generations) (fp : Fingerprint) (count : UInt64) (success : Bool) : Generations where
  succeeded := if success then g.succeeded + 1 else g.succeeded
  failed := if success then g.failed else g.failed + 1
  hot := g.hot ++ [(fp, count)]

/-- Whether one state comes from another by changes to the variables, the counters and the log that tell of no new
code. -/
structure Advances (s t : Engine) : Prop where
  state : ∃ env counters log, t = { s with env := env, counters := counters, log := log }
  generations : t.generations = s.generations

/-- Whether an answer and a state are those of evaluation. -/
structure Executes (fs : List PureFunction) (e : Expr) (s : Engine) (out : Except EngineError Int64 × Engine) :
    Prop where
  answer : out.1 = (Plain.execute fs e s.env).1
  env : out.2.env = (Plain.execute fs e s.env).2
  advances : Advances s out.2

section
variable {P : Expr → Prop} {s t u : Engine} {e : Expr} {fs : List PureFunction}

theorem Advances.refl (s : Engine) : Advances s s := ⟨⟨s.env, s.counters, s.log, rfl⟩, rfl⟩

theorem Advances.trans (h : Advances s t) (h' : Advances t u) : Advances s u := by
  refine ⟨?_, h'.generations.trans h.generations⟩
  obtain ⟨env, counters, log, rfl⟩ := h.state
  obtain ⟨env', counters', log', rfl⟩ := h'.state
  exact ⟨env', counters', log', rfl⟩

theorem Advances.config (h : Advances s t) : t.config = s.config := by
  obtain ⟨_, _, _, rfl⟩ := h.state
  rfl

theorem Advances.cache (h : Advances s t) : t.cache = s.cache := by
  obtain ⟨_, _, _, rfl⟩ := h.state
  rfl

theorem Advances.arena (h : Advances s t) : t.arena = s.arena := by
  obtain ⟨_, _, _, rfl⟩ := h.state
  rfl

theorem Sound.advance (hs : Sound P s) (h : Advances s t) : Sound P t := by
  obtain ⟨env, counters, log, rfl⟩ := h.state
  exact ⟨hs.unlocked, hs.opened, hs.stock⟩

/-! ### Evaluation -/

/-- The end of an evaluation is that of the plain machine. -/
theorem conclude_executes (fs : List PureFunction) (e : Expr) (s : Engine) (compiled : Bool) :
    Executes fs e s
      (conclude compiled ((e.eval (Builtins.ofFunctions fs) (Overlay.on s.env) ()).beside s)) := by
  unfold conclude Run.beside
  rcases h : (e.eval (Builtins.ofFunctions fs) (Overlay.on s.env) ()).result with (f | n) | v
  · exact ⟨by simp [Plain.execute, h, EngineError.ofFault], by simp [Plain.execute, h], ⟨_, _, _, rfl⟩, rfl⟩
  · exact ⟨by simp [Plain.execute, h, EngineError.ofFault], by simp [Plain.execute, h], .refl s⟩
  · exact ⟨by simp [Plain.execute, h], by simp [Plain.execute, h], ⟨_, _, _, rfl⟩, rfl⟩

theorem evaluateLocked_eq (hs : s.locked = false) :
    evaluateLocked (Builtins.ofFunctions fs) e s
      = (e.eval (Builtins.ofFunctions fs) (Overlay.on s.env) ()).beside s := by
  rw [evaluateLocked, Expr.eval_ofFunctions]
  cases s
  cases hs
  rfl

theorem isStale_self (e : Expr) (env : Bindings) : e.isStale env env = false := by
  simp [Expr.isStale]

/-- Evaluation on a snapshot of the variables needs no second attempt. -/
theorem interpret_executes (fs : List PureFunction) (e : Expr) (hs : s.closed = false) :
    Executes fs e s (s.interpret (Builtins.ofFunctions fs) e) := by
  have hconclude := conclude_executes fs e s false
  unfold interpret
  rw [Expr.eval_ofFunctions]
  dsimp only
  split
  · rename_i n h
    have hresult : (e.eval (Builtins.ofFunctions fs) (Overlay.on s.env) ()).result = .error (.invalidOperator n) := h
    exact ⟨by simp [Plain.execute, hresult, EngineError.ofFault], by simp [Plain.execute, hresult, Run.beside], .refl s⟩
  · simp only [Run.beside, hs, isStale_self, Bool.false_eq_true, if_false]
    exact hconclude

/-! ### Compiled code -/

theorem runNative_advances (s : Engine) (fp : Fingerprint) (routine : Routine) (h : X64.Handle) :
    Advances s (s.runNative fp routine h).2 := by
  unfold runNative
  dsimp only
  split_ifs
  · split
    · exact ⟨⟨_, _, _, rfl⟩, by simp [generations, report, Event.hot?]⟩
    · split_ifs
      · exact ⟨⟨_, _, _, rfl⟩, rfl⟩
      · exact .refl s
  · exact .refl s

section
variable {a : Artifact}

theorem runCompiled_simulated (fs : List PureFunction) (ha : s.artifactFor? e = some a) (hh : a.handle? = none)
    (hs : s.locked = false) :
    s.runCompiled (Builtins.ofFunctions fs) e =
      Prod.map some id (conclude true ((e.eval (Builtins.ofFunctions fs) (Overlay.on s.env) ()).beside s)) := by
  rw [runCompiled, ha]
  dsimp only
  rw [hh, evaluateLocked_eq hs]
  rfl

theorem runCompiled_native (fns : Builtins Engine) {h : X64.Handle} (ha : s.artifactFor? e = some a)
    (hh : a.handle? = some h) :
    s.runCompiled fns e = Prod.map (Option.map .ok) id (s.runNative e.fingerprint a.routine h) := by
  rw [runCompiled, ha]
  dsimp only
  rw [hh]
  dsimp only
  generalize s.runNative e.fingerprint a.routine h = run
  rcases run with ⟨_ | v, t⟩ <;> rfl

theorem runCompiled_advances (fs : List PureFunction) (e : Expr) (hs : s.locked = false) :
    Advances s (s.runCompiled (Builtins.ofFunctions fs) e).2 := by
  cases ha : s.artifactFor? e with
  | none =>
      rw [runCompiled, ha]
      exact .refl s
  | some a =>
      cases hh : a.handle? with
      | none =>
          rw [runCompiled_simulated fs ha hh hs]
          exact (conclude_executes fs e s true).advances
      | some h =>
          rw [runCompiled_native _ ha hh]
          exact runNative_advances s e.fingerprint a.routine h

end

theorem runNative_of_invoke (fp : Fingerprint) {r : Routine} {h : X64.Handle} {v : Int64} {f : Routine.Frame}
    (hbound : r.layout.seedNames.all (fun name => (s.env.get? name).isSome) = true)
    (hinvoke : s.arena.invoke h (Routine.Frame.load r.layout fun name =>
      if r.layout.seedNames.contains name then s.env.get? name else none) = .ok (v, f)) :
    s.runNative fp r h = if Routine.Frame.status f = 0 then
      (some v, { s with
        env := s.env.update (Bindings.ofList (Routine.Frame.assigned r.layout f))
        counters := s.counters.execution 0 true false })
      else (none, s) := by
  unfold runNative
  dsimp only
  rw [if_pos hbound, hinvoke]

/-- Prepared code of an expression answers as evaluation does. It gives no answer, and leaves the variables as they
are, only where a seed has no value or evaluation fails. -/
theorem runNative_executes (fs : List PureFunction) (fp : Fingerprint) {seeds : List String} {r : Routine}
    {h : X64.Handle} (hgen : Routine.generate e seeds = .ok r) (hsize : r.size < 2 ^ 31)
    (hprepared : Prepared s.arena r h) :
    (∃ v t, s.runNative fp r h = (some v, t) ∧ Executes fs e s (.ok v, t)) ∨
      s.runNative fp r h = (none, s) ∧
        ((∃ n ∈ seeds, s.env.get? n = none) ∨ ∃ r, (Plain.execute fs e s.env).1 = .error r) := by
  obtain ⟨-, -, hseeds, -⟩ := Routine.generate_names hgen
  have hmem (n : String) : n ∈ r.layout.seedNames ↔ n ∈ seeds := by
    rw [hseeds]
    exact Routine.mem_ofSeeds
  by_cases hbound : r.layout.seedNames.all (fun name => (s.env.get? name).isSome) = true
  · have hvalues : (fun name => if r.layout.seedNames.contains name then s.env.get? name else none)
        = Routine.seedValues seeds s.env := by
      funext n
      simp [Routine.seedValues, hmem]
    obtain ⟨v, f, hcall, hreflects⟩ := Routine.call_reflects (Builtins.ofFunctions fs) () hgen hsize fun n hn =>
      List.all_eq_true.mp hbound n ((hmem n).mpr hn)
    have hne : Routine.Frame.load r.layout (Routine.seedValues seeds s.env) ≠ [] := by
      rw [← List.length_pos_iff, Routine.Frame.length_load, Routine.Frame.words]
      omega
    have hinvoke : s.arena.invoke h (Routine.Frame.load r.layout (Routine.seedValues seeds s.env)) = .ok (v, f) := by
      rw [X64.Arena.invoke, hprepared]
      exact X64.Region.invoke_of_call rfl hne hcall
    have hrun := runNative_of_invoke fp hbound (hvalues.symm ▸ hinvoke)
    unfold Routine.Reflects at hreflects
    cases hresult : (e.eval (Builtins.ofFunctions fs) (Overlay.on s.env) ()).result with
    | ok x =>
        rw [hresult] at hreflects
        obtain ⟨rfl, hstatus, hwrites⟩ := hreflects
        rw [if_pos hstatus, hwrites] at hrun
        exact .inl ⟨v, _, hrun, by simp [Plain.execute, hresult], by simp [Plain.execute, hresult, Overlay.commit],
          ⟨_, _, _, rfl⟩, rfl⟩
    | error fault =>
        rw [hresult] at hreflects
        rw [if_neg hreflects.1] at hrun
        exact .inr ⟨hrun, .inr ⟨.ofFault fault, by simp [Plain.execute, hresult]⟩⟩
  · refine .inr ⟨?_, .inl ?_⟩
    · unfold runNative
      exact if_neg hbound
    · obtain ⟨n, hn, hnone⟩ := List.all_eq_false.mp (Bool.eq_false_of_not_eq_true hbound)
      exact ⟨n, (hmem n).mp hn, by simpa using hnone⟩

/-- Whether expressions that were submitted are told apart by their fingerprints, and have code of moderate size. -/
structure Separated (P : Expr → Prop) : Prop where
  shape : ∀ e f, P e → P f → e.fingerprint = f.fingerprint → e.shape = f.shape
  size : ∀ e vars r, P e → Routine.generate e (seedsFor e vars) = .ok r → r.size < 2 ^ 31

/-- The compiled form of an expression answers as evaluation does, or it leaves the engine as it is. -/
theorem runCompiled_executes (fs : List PureFunction) (hP : Separated P) (hs : Sound P s) (he : P e) :
    (∃ answer t, s.runCompiled (Builtins.ofFunctions fs) e = (some answer, t) ∧ Executes fs e s (answer, t)) ∨
      s.runCompiled (Builtins.ofFunctions fs) e = (none, s) := by
  cases ha : s.artifactFor? e with
  | none => exact .inr (by rw [runCompiled, ha])
  | some a =>
      obtain ⟨x, hfind, -, hart⟩ := artifactFor?_eq_some ha
      obtain ⟨hx, hfp⟩ := Cache.find?_eq_some hfind
      obtain ⟨f, vars, hf, hffp, hgen⟩ := (hs.stock.kept x hx).made a hart
      cases hh : a.handle? with
      | none => exact .inl ⟨_, _, runCompiled_simulated fs ha hh hs.unlocked, conclude_executes fs e s true⟩
      | some h =>
          -- The code was generated from `f`, which has the shape of `e`, so it is code of `e` as well.
          have hshape : f.shape = e.shape := hP.shape f e hf he (hffp.trans hfp)
          have hrun := runNative_executes fs e.fingerprint (Routine.generate_congr hshape hgen)
            (hP.size f vars a.routine hf hgen) ((hs.stock.kept x hx).prepared a h hart hh)
          rw [runCompiled_native _ ha hh]
          rcases hrun with ⟨v, t, hrun, hexec⟩ | ⟨hrun, -⟩
          · exact .inl ⟨.ok v, t, by rw [hrun]; rfl, hexec⟩
          · exact .inr (by rw [hrun]; rfl)

/-! ### Whole executions -/

/-- The result of an execution that ended with a value or an error. -/
def finished (e : Expr) (count : UInt64) (promoted compiled : Bool) (out : Except EngineError Int64 × Engine) :
    Except EngineError Execution × Engine :=
  match out with
  | (.error r, s) => (.error r, s)
  | (.ok v, s) => (.ok ⟨v, s.env, compiled, e.fingerprint, count, 0, if promoted then some 0 else none⟩, s)

/-- The value of an execution and the variables after it. -/
def Execution.answer (x : Execution) : Int64 × Bindings := (x.value, x.environment)

theorem finished_snd (e : Expr) (count : UInt64) (promoted compiled : Bool) (out : Except EngineError Int64 × Engine) :
    (finished e count promoted compiled out).2 = out.2 := by
  rcases out with ⟨r | v, s⟩ <;> rfl

theorem finished_fst (e : Expr) (count : UInt64) (promoted compiled : Bool) (out : Except EngineError Int64 × Engine) :
    (finished e count promoted compiled out).1.map Execution.answer = out.1.map (·, out.2.env) := by
  rcases out with ⟨r | v, s⟩ <;> rfl

/-- An execution is a submission, then a run of the compiled form, and evaluation if that gives no answer. -/
theorem executeExpr_eq (fns : Builtins Engine) (e : Expr) (cancelled : Bool) (hl : s.locked = false)
    (hc : s.closed = false) :
    s.executeExpr fns e cancelled =
      match (s.receive e).runCompiled fns e with
      | (some answer, t) => finished e (s.submit e).1 (s.submit e).2.1 true (answer, t)
      | (none, t) => finished e (s.submit e).1 (s.submit e).2.1 false (t.interpret fns e) := by
  simp only [executeExpr, enter, hl, hc, Bool.false_eq_true, if_false]
  rfl

/-- After the submission, an execution keeps what the engine holds. -/
theorem executeExpr_advances (hs : Sound P s) (he : P e) (fs : List PureFunction) (cancelled : Bool) :
    Advances (s.receive e) (s.executeExpr (Builtins.ofFunctions fs) e cancelled).2 := by
  obtain ⟨hreceive, -⟩ := hs.receive he
  have hrun := runCompiled_advances fs e hreceive.unlocked
  rw [executeExpr_eq _ _ _ hs.unlocked hs.opened]
  split
  · rename_i answer t heq
    rw [heq] at hrun
    rw [finished_snd]
    exact hrun
  · rename_i t heq
    rw [heq] at hrun
    rw [finished_snd]
    exact hrun.trans (interpret_executes fs e (hreceive.advance hrun).opened).advances

theorem Sound.executeExpr (hs : Sound P s) (he : P e) (fs : List PureFunction) (cancelled : Bool) :
    Sound P (s.executeExpr (Builtins.ofFunctions fs) e cancelled).2 :=
  (hs.receive he).1.advance (executeExpr_advances hs he fs cancelled)

/-- An execution answers what evaluation says, and leaves the variables that it leaves. -/
theorem executeExpr_answer (hP : Separated P) (hs : Sound P s) (he : P e) (fs : List PureFunction) (cancelled : Bool) :
    (s.executeExpr (Builtins.ofFunctions fs) e cancelled).1.map Execution.answer
        = (Plain.execute fs e s.env).1.map (·, (Plain.execute fs e s.env).2) ∧
      (s.executeExpr (Builtins.ofFunctions fs) e cancelled).2.env = (Plain.execute fs e s.env).2 := by
  obtain ⟨hreceive, henv⟩ := hs.receive he
  have hfinish {count : UInt64} {promoted compiled : Bool} {out : Except EngineError Int64 × Engine}
      (h : Executes fs e (s.receive e) out) :
      (finished e count promoted compiled out).1.map Execution.answer
          = (Plain.execute fs e s.env).1.map (·, (Plain.execute fs e s.env).2) ∧
        (finished e count promoted compiled out).2.env = (Plain.execute fs e s.env).2 := by
    rw [finished_fst, finished_snd, h.answer, h.env, henv]
    exact ⟨rfl, rfl⟩
  rw [executeExpr_eq _ _ _ hs.unlocked hs.opened]
  rcases runCompiled_executes fs hP hreceive he with ⟨answer, t, hrun, hexec⟩ | hrun
  · rw [hrun]
    exact hfinish hexec
  · rw [hrun]
    exact hfinish (interpret_executes fs e hreceive.opened)

end

end Engine

end TierCalc
