import TierCalc.Proofs.Engine.Execution

/-!
# What a submission does

A submission is counted in the profile, and may be promoted. `receive_cases` says once what that makes of an open
engine: the submission was only counted, or the entry that awaits an artifact got one, or the entry was set aside. The
rest follows from it.

* `find?_receive`, `find?_of_receive`: what becomes of the entry of the expression and of the others.
* `executeExpr_generations`: code is generated once with a submission that is promoted, and with no other.
-/

namespace TierCalc.Engine

section
variable {P : Expr → Prop} {s t : Engine} {e : Expr} {fp : Fingerprint}

/-! ### Counting -/

/-- What the profile says to a submission. -/
def recorded (s : Engine) (e : Expr) : Submission Artifact := s.cache.record e.fingerprint e.callFree e.render

theorem recorded_self (s : Engine) (e : Expr) :
    (s.recorded e).cache.find? e.fingerprint
        = some ((s.cache.entryOf e.fingerprint e.render).submit s.cache.threshold e.callFree).1 ∧
      (s.recorded e).count
        = ((s.cache.entryOf e.fingerprint e.render).submit s.cache.threshold e.callFree).1.count ∧
      (s.recorded e).promote = ((s.cache.entryOf e.fingerprint e.render).submit s.cache.threshold e.callFree).2 :=
  Cache.record_self s.cache e.fingerprint e.callFree e.render

/-- A submission changes the profile, and no more than the arena and the log beside it. Nothing is hot by that. -/
theorem submit_eq (s : Engine) (e : Expr) :
    ∃ arena log, s.submit e =
        ((s.recorded e).count, (s.recorded e).promote,
          { s with cache := (s.recorded e).cache, arena := arena, log := log }) ∧
      log.toList.filterMap Event.hot? = s.generations.hot := by
  unfold submit Cache.submit recorded
  dsimp only
  cases (s.cache.record e.fingerprint e.callFree e.render).evicted? with
  | none => exact ⟨s.arena, s.log, rfl, rfl⟩
  | some old => exact ⟨_, _, rfl, by simp [generations, Event.hot?]⟩

/-- A promoted entry awaits its artifact. -/
theorem find?_recorded (h : (s.recorded e).promote = true) :
    ∃ x, (s.recorded e).cache.find? e.fingerprint = some x ∧ x.stage = .attempted := by
  obtain ⟨hfind, -, hflag⟩ := recorded_self s e
  refine ⟨_, hfind, ?_⟩
  rw [hflag] at h
  by_cases hcold : (s.cache.entryOf e.fingerprint e.render).stage = .cold
  · rw [Entry.submit_of_cold hcold] at h ⊢
    split_ifs at h ⊢ with hlt hcalls
    · rfl
    · exact absurd h hcalls
  · rw [Entry.submit_of_ne_cold hcold] at h
    cases h

/-! ### Compiling -/

theorem prepare_generated {seeds : List String} {r : Routine} (h : Routine.generate e seeds = .ok r)
    (arena : X64.Arena) :
    arena.prepare r.code r.entry = .ok (arena.regions.length, ⟨arena.regions ++ [⟨r.code, r.entry, true⟩]⟩) := by
  obtain ⟨ps, p, -, -, rfl⟩ := Routine.generate_eq_ok h
  have hlength := X64.length_le_length_encodeAll (Routine.assemble p.names.length ps)
  have hpos : 0 < (Routine.assemble p.names.length ps).length := by
    simp [Routine.assemble, Routine.epilogue]
  generalize X64.encodeAll (Routine.assemble p.names.length ps) = code at hlength
  have hne : code ≠ [] := List.length_pos_iff.mp (by omega)
  simp [X64.Arena.prepare, X64.Region.prepare, hne]

/-- A compilation fails only where generation does. -/
theorem compile_generated (s : Engine) (e : Expr) :
    (∃ r r', Routine.generate e (seedsFor e s.env) = .error r ∧ s.compile e = (.error r', s)) ∨
      ∃ a arena', Routine.generate e (seedsFor e s.env) = .ok a.routine ∧
        s.compile e = (.ok a, { s with arena := arena' }) := by
  unfold compile
  cases hgen : Routine.generate e (seedsFor e s.env) with
  | error r => exact .inl ⟨r, _, rfl, rfl⟩
  | ok routine =>
      refine .inr ?_
      dsimp only
      split
      · rw [prepare_generated hgen s.arena]
        exact ⟨⟨routine, some _⟩, _, rfl, rfl⟩
      · exact ⟨⟨routine, none⟩, s.arena, rfl, rfl⟩

/-! ### Whole submissions -/

/-- An engine after a submission. -/
inductive Received (s : Engine) (e : Expr) : Engine → Prop where
  | counted (arena : X64.Arena) (log : Array Event) (h : (s.recorded e).promote = false)
      (hlog : log.toList.filterMap Event.hot? = s.generations.hot) :
      Received s e { s with cache := (s.recorded e).cache, arena := arena, log := log }
  | compiled (arena : X64.Arena) (log : Array Event) (h : (s.recorded e).promote = true)
      (hlog : log.toList.filterMap Event.hot? = s.generations.hot ++ [(e.fingerprint, (s.recorded e).count)])
      {x : Entry Artifact} (hx : (s.recorded e).cache.find? e.fingerprint = some x) (hstage : x.stage = .attempted)
      {a : Artifact} (hgen : Routine.generate e (seedsFor e s.env) = .ok a.routine) :
      Received s e
        { s with
          cache := (s.recorded e).cache.put { x with stage := .compiled a }
          counters := s.counters.compilation 0
          arena := arena
          log := log }
  | failed (arena : X64.Arena) (log : Array Event) (h : (s.recorded e).promote = true)
      (hlog : log.toList.filterMap Event.hot? = s.generations.hot ++ [(e.fingerprint, (s.recorded e).count)])
      {x : Entry Artifact} (hx : (s.recorded e).cache.find? e.fingerprint = some x) (hstage : x.stage = .attempted)
      {r : Routine.GenerateError} (hgen : Routine.generate e (seedsFor e s.env) = .error r) :
      Received s e
        { s with
          cache := (s.recorded e).cache.put { x with stage := .neverCompile }
          counters := s.counters.compileFailure 0
          arena := arena
          log := log }

theorem receive_cases (hopen : s.closed = false) (e : Expr) : Received s e (s.receive e) := by
  obtain ⟨arena, log, hsubmit, hlog⟩ := submit_eq s e
  unfold receive
  rw [hsubmit]
  dsimp only
  split_ifs with hpromote
  · obtain ⟨x, hx, hstage⟩ := find?_recorded hpromote
    unfold promote
    rcases compile_generated
      ({ s with cache := (s.recorded e).cache, arena := arena, log := log }.report
        (.hot e.fingerprint (s.recorded e).count)) e with ⟨r, r', hgen, hc⟩ | ⟨a, arena', hgen, hc⟩
    · rw [hc]
      dsimp only [install, report]
      rw [if_neg (by simp [hopen]), Cache.markFailed_attempted hx hstage]
      exact .failed _ _ hpromote (by simp [Event.hot?, hlog]) hx hstage hgen
    · rw [hc]
      dsimp only [install, report]
      rw [if_neg (by simp [hopen]), Cache.install_attempted hx hstage a]
      exact .compiled _ _ hpromote (by simp [Event.hot?, hlog]) hx hstage hgen
  · exact .counted arena log (Bool.eq_false_of_not_eq_true hpromote) hlog

/-! ### The entries afterwards -/

/-- The stage of an entry after a submission that finds it as `x`. -/
inductive StageAfter (s : Engine) (e : Expr) (x : Entry Artifact) : Stage Artifact → Prop where
  | settled (h : x.stage ≠ .cold) : StageAfter s e x x.stage
  | counted (h : x.stage = .cold) (hlt : x.count + 1 < s.cache.threshold) : StageAfter s e x .cold
  | compiled (h : x.stage = .cold) (hge : ¬ x.count + 1 < s.cache.threshold) {a : Artifact}
      (hgen : Routine.generate e (seedsFor e s.env) = .ok a.routine) : StageAfter s e x (.compiled a)
  | failed (h : x.stage = .cold) (hge : ¬ x.count + 1 < s.cache.threshold) {r : Routine.GenerateError}
      (hgen : Routine.generate e (seedsFor e s.env) = .error r) : StageAfter s e x .neverCompile

/-- What a submission does to its entry. -/
theorem find?_receive (hopen : s.closed = false) (e : Expr) :
    ∃ stage, (s.receive e).cache.find? e.fingerprint
        = some { s.cache.entryOf e.fingerprint e.render with
            count := (s.cache.entryOf e.fingerprint e.render).count + 1, stage := stage } ∧
      StageAfter s e (s.cache.entryOf e.fingerprint e.render) stage := by
  obtain ⟨hfind, -, hflag⟩ := recorded_self s e
  have hreceived := receive_cases hopen e
  generalize s.receive e = t at hreceived ⊢
  generalize s.cache.entryOf e.fingerprint e.render = x at hfind hflag ⊢
  by_cases hcold : x.stage = .cold
  · rw [Entry.submit_of_cold hcold] at hfind hflag
    split_ifs at hfind hflag with hlt hcalls
    · cases hreceived with
      | counted arena log h => exact ⟨x.stage, hfind, hcold ▸ .counted hcold hlt⟩
      | compiled arena log h => exact absurd (hflag.symm.trans h) (by simp)
      | failed arena log h => exact absurd (hflag.symm.trans h) (by simp)
    · cases hreceived with
      | counted arena log h => exact absurd (hcalls.symm.trans (hflag.symm.trans h)) (by simp)
      | compiled arena log h hlog hx hstage hgen =>
          obtain rfl := Option.some.inj (hx.symm.trans hfind)
          exact ⟨_, Cache.find?_put hx _, .compiled hcold hlt hgen⟩
      | failed arena log h hlog hx hstage hgen =>
          obtain rfl := Option.some.inj (hx.symm.trans hfind)
          exact ⟨_, Cache.find?_put hx _, .failed hcold hlt hgen⟩
    · have hgen : Routine.generate e (seedsFor e s.env) = .error .containsCall := by
        simp [Routine.generate, hcalls]
      cases hreceived with
      | counted arena log h => exact ⟨_, hfind, .failed hcold hlt hgen⟩
      | compiled arena log h => exact absurd (hflag.symm.trans h) hcalls
      | failed arena log h => exact absurd (hflag.symm.trans h) hcalls
  · rw [Entry.submit_of_ne_cold hcold] at hfind hflag
    cases hreceived with
    | counted arena log h => exact ⟨x.stage, hfind, .settled hcold⟩
    | compiled arena log h => exact absurd (hflag.symm.trans h) (by simp)
    | failed arena log h => exact absurd (hflag.symm.trans h) (by simp)

theorem find?_of_receive (hopen : s.closed = false) (h : e.fingerprint ≠ fp) {x : Entry Artifact}
    (hx : (s.receive e).cache.find? fp = some x) : s.cache.find? fp = some x := by
  have hreceived := receive_cases hopen e
  generalize s.receive e = t at hreceived hx
  have hrecorded : (s.recorded e).cache.find? fp = some x := by
    cases hreceived with
    | counted arena log => exact hx
    | compiled arena log _ _ hy => exact (Cache.find?_put_other hy h _).symm.trans hx
    | failed arena log _ _ hy => exact (Cache.find?_put_other hy h _).symm.trans hx
  exact Cache.find?_of_record h hrecorded

theorem receive_threshold (hopen : s.closed = false) (e : Expr) :
    (s.receive e).cache.threshold = s.cache.threshold := by
  have hrecord := Cache.record_threshold s.cache e.fingerprint e.callFree e.render
  have hreceived := receive_cases hopen e
  generalize s.receive e = t at hreceived ⊢
  cases hreceived with
  | counted arena log => exact hrecord
  | compiled arena log => exact hrecord
  | failed arena log => exact hrecord

/-! ### Generations -/

theorem receive_generations (hopen : s.closed = false) (e : Expr) :
    (s.receive e).generations =
      if (s.recorded e).promote then
        s.generations.add e.fingerprint (s.recorded e).count
          (Routine.generate e (seedsFor e s.env)).toOption.isSome
      else s.generations := by
  have hreceived := receive_cases hopen e
  generalize s.receive e = t at hreceived ⊢
  cases hreceived with
  | counted arena log h hlog => simp [generations, h, hlog]
  | compiled arena log h hlog hx hstage hgen =>
      simp [generations, Generations.add, h, hlog, hgen, Counters.compilation, Except.toOption]
  | failed arena log h hlog hx hstage hgen =>
      simp [generations, Generations.add, h, hlog, hgen, Counters.compileFailure, Except.toOption]

/-- Code is generated with a submission that is promoted, once, and with no other. -/
theorem executeExpr_generations (hs : Sound P s) (he : P e) (fs : List PureFunction) (cancelled : Bool) :
    (s.executeExpr (Builtins.ofFunctions fs) e cancelled).2.generations =
      if (s.recorded e).promote then
        s.generations.add e.fingerprint (s.recorded e).count
          (Routine.generate e (seedsFor e s.env)).toOption.isSome
      else s.generations :=
  (executeExpr_advances hs he fs cancelled).generations.trans (receive_generations hs.opened e)

end

end TierCalc.Engine
