import TierCalc.Proofs.Engine.Promotion
import TierCalc.Proofs.Engine.Tally
import TierCalc.Proofs.Expr.Exactness
import TierCalc.Proofs.Profile.Counting

/-!
# The counters of an engine

An engine counts what it does in several places: in its counters, in the entries of its profile, and in the cache that
holds them. A `Ledger` is kept beside it, which is what a caller could have written down: the submissions, the errors
that were answered, the promotions, the entries that were added and the counts of those that made room.

* `Conserved.submission`: a submission is entered on both sides. It is counted in one entry and on one path, whichever
  way it runs.
* `Conserved.answer`, `Conserved.serve`: so the two agree after every request, as long as nothing can overflow.
-/

namespace TierCalc

/-! ### Parsed expressions -/

theorem Operator.isSome_ofNumber? (o : Operator) : (Operator.ofNumber? o.number).isSome = true := by
  cases o <;> rfl

namespace Expr

theorem operable_of_derives {value : String → Option Int64} {p : Grammar.Phrase} {ws : List Grammar.Terminal} {e : Expr}
    (h : Grammar.Derives value p ws e) : e.Operable := by
  induction h with
  | assign _ _ ih => exact .assign _ _ _ ih
  | compared _ ih => exact ih
  | joined o _ _ ihl ihr => exact .binary _ (Operator.isSome_ofNumber? o) ihl ihr
  | single _ ih => exact ih
  | negated _ ih => exact .binary _ (Operator.isSome_ofNumber? .subtract) (.int _ _ _) ih
  | unsigned _ ih => exact ih
  | call args _ _ ih =>
      refine .call _ _ _ _ fun a ha => ?_
      obtain ⟨arg, harg, rfl⟩ := List.mem_map.mp ha
      exact ih arg harg
  | uncalled _ ih => exact ih
  | int _ => exact .int _ _ _
  | name x => exact .ident _ x
  | group _ ih => exact ih
  | cond _ _ _ ihc ihy ihn => exact .cond _ _ _ ihc ihy ihn

theorem operable_of_unplaced {e : Expr} (h : e.unplaced.Operable) : e.Operable := by
  induction e using nodeInduction with
  | int => exact .int _ _ _
  | ident => exact .ident _ _
  | binary l p op r ihl ihr =>
      cases h with
      | binary _ ho hl hr => exact .binary p ho (ihl hl) (ihr hr)
  | assign p name q v ih =>
      cases h with
      | assign _ _ _ hv => exact .assign p name q (ih hv)
  | call p name q args r ih =>
      rw [unplaced, argsUnplaced_eq] at h
      cases h with
      | call _ _ _ _ hargs => exact .call p name q r fun a ha => ih a ha (hargs _ (List.mem_map_of_mem ha))
  | cond p q c y n r ihc ihy ihn =>
      cases h with
      | cond _ _ _ hc hy hn => exact .cond p q r (ihc hc) (ihy hy) (ihn hn)

theorem operable_of_sentence {value : String → Option Int64} {ws : List Grammar.Terminal} {e : Expr}
    (h : Grammar.Sentence value ws e) : e.Operable := by
  cases h with
  | plain hd => exact operable_of_derives hd
  | closed hd => exact operable_of_derives hd

/-- All operators of a parsed expression exist. -/
theorem operable_of_parse {s : Source} {o : ParseOptions} {e : Expr} (h : parse s o = .ok e) : e.Operable := by
  obtain ⟨tokens, last, -, hsentence⟩ :=
    Parser.whole_sentence (Lexer.stream_proper s.file s.cursor) (parse_eq_ok.mp h)
  exact operable_of_unplaced (operable_of_sentence hsentence)

end Expr

namespace Engine

open Session

/-! ### The ledger -/

/-- One for an answer that is an evaluation error, and else zero. -/
def failureCount {α : Type} : Except EngineError α → Nat
  | .error (.failed _) => 1
  | _ => 0

theorem failureCount_finished (e : Expr) (count : UInt64) (promoted compiled : Bool)
    (out : Except EngineError Int64 × Engine) :
    failureCount (finished e count promoted compiled out).1 = failureCount out.1 := by
  rcases out with ⟨r | v, s⟩
  · cases r <;> rfl
  · rfl

/-- What has happened to an engine since it was made or reset: the submissions, the evaluation errors among their
answers, the promotions, the entries that were added to the profile, and the counts that entries had when they were
removed to make room. -/
structure Ledger where
  executions : Nat := 0
  failures : Nat := 0
  promotions : Nat := 0
  insertions : Nat := 0
  departed : Nat := 0
deriving DecidableEq, Repr

namespace Ledger

/-- The ledger after a submission. -/
def submission (k : Ledger) (fs : List PureFunction) (a : Attempt) : Ledger where
  executions := k.executions + 1
  failures := k.failures + failureCount (a.result fs)
  promotions := k.promotions + if (a.engine.recorded a.expr).promote then 1 else 0
  insertions := k.insertions + if (a.engine.cache.find? a.expr.fingerprint).isNone then 1 else 0
  departed := k.departed + ((a.engine.recorded a.expr).evicted?.map (·.count.toNat)).getD 0

/-- The ledger after a request. -/
def next (k : Ledger) (fs : List PureFunction) (s : Engine) : Request → Ledger
  | .reset => {}
  | r =>
      match s.attempt? r with
      | some a => k.submission fs a
      | none => k

/-- The ledger after requests one after another. -/
def after (k : Ledger) (fs : List PureFunction) : Engine → List Request → Ledger
  | _, [] => k
  | s, r :: rest => (k.next fs s r).after fs (s.answer fs r).2 rest

end Ledger

/-- Whether the counters of an engine and the counts of its entries agree with a ledger of at most `n` requests. -/
structure Conserved (n : Nat) (k : Ledger) (s : Engine) : Prop where
  executions_le : k.executions ≤ n
  failures_le : k.failures ≤ k.executions
  promotions_le : k.promotions ≤ k.executions
  insertions_le : k.insertions ≤ k.executions
  total : s.counters.total.toNat = k.executions
  paths : s.counters.compiled.toNat + s.counters.interpreted.toNat = k.executions
  counts : s.cache.total + k.departed = k.executions
  failed : s.counters.failed.toNat = k.failures
  compilations : s.counters.compilations.toNat + s.counters.compileFailures.toNat = k.promotions
  entries : s.cache.evictions.toNat + s.cache.size = k.insertions

/-! ### One request -/

section
variable {P : Expr → Prop} {s t : Engine} {e : Expr} {fs : List PureFunction} {n : Nat} {k : Ledger}

/-- A compilation or its failure is counted for each promotion, and nothing else. -/
theorem Received.counters (h : Received s e t)
    (hroom : s.counters.compilations.toNat + s.counters.compileFailures.toNat + 1 < 2 ^ 64) :
    t.counters.total = s.counters.total ∧ t.counters.compiled = s.counters.compiled ∧
      t.counters.interpreted = s.counters.interpreted ∧ t.counters.failed = s.counters.failed ∧
      t.counters.compilations.toNat + t.counters.compileFailures.toNat =
        s.counters.compilations.toNat + s.counters.compileFailures.toNat + if (s.recorded e).promote then 1 else 0 := by
  cases h with
  | counted arena log hpromote =>
      rw [hpromote]
      exact ⟨rfl, rfl, rfl, rfl, rfl⟩
  | compiled arena log hpromote =>
      refine ⟨rfl, rfl, rfl, rfl, ?_⟩
      simp only [Counters.compilation, toNat_succ (show s.counters.compilations.toNat + 1 < 2 ^ 64 by omega), hpromote,
        if_true]
      omega
  | failed arena log hpromote =>
      refine ⟨rfl, rfl, rfl, rfl, ?_⟩
      simp only [Counters.compileFailure, toNat_succ (show s.counters.compileFailures.toNat + 1 < 2 ^ 64 by omega),
        hpromote, if_true]
      omega

/-- Compilation leaves the counts of the entries, and their number. -/
theorem Received.cache (h : Received s e t) :
    t.cache.total = (s.recorded e).cache.total ∧ t.cache.size = (s.recorded e).cache.size ∧
      t.cache.evictions = (s.recorded e).cache.evictions := by
  cases h with
  | counted => exact ⟨rfl, rfl, rfl⟩
  | compiled arena log _ _ hx => exact ⟨Cache.total_put hx _, Cache.size_put hx _, rfl⟩
  | failed arena log _ _ hx => exact ⟨Cache.total_put hx _, Cache.size_put hx _, rfl⟩

/-- The run of an expression whose operators exist is counted once, on one path, and again if it failed. -/
theorem Tallied.counts {c c' : Counters} {compiled : Bool} {out : Except EngineError Int64}
    (h : Tallied e c compiled out c') (he : e.Operable) (htotal : c.total.toNat + 1 < 2 ^ 64)
    (hpaths : c.compiled.toNat + c.interpreted.toNat + 1 < 2 ^ 64) (hfailed : c.failed.toNat + 1 < 2 ^ 64) :
    c'.total.toNat = c.total.toNat + 1 ∧
      c'.compiled.toNat + c'.interpreted.toNat = c.compiled.toNat + c.interpreted.toNat + 1 ∧
      c'.failed.toNat = c.failed.toNat + failureCount out ∧ c'.compilations = c.compilations ∧
      c'.compileFailures = c.compileFailures := by
  have hpath (failed : Bool) : (c.execution 0 compiled failed).compiled.toNat +
      (c.execution 0 compiled failed).interpreted.toNat = c.compiled.toNat + c.interpreted.toNat + 1 := by
    cases compiled with
    | true =>
        simp only [Counters.execution, if_true, toNat_succ (show c.compiled.toNat + 1 < 2 ^ 64 by omega)]
        omega
    | false =>
        simp only [Counters.execution, Bool.false_eq_true, if_false,
          toNat_succ (show c.interpreted.toNat + 1 < 2 ^ 64 by omega)]
        omega
  cases h with
  | value v => exact ⟨toNat_succ htotal, hpath false, rfl, rfl, rfl⟩
  | failure r => exact ⟨toNat_succ htotal, hpath true, toNat_succ hfailed, rfl, rfl⟩
  | invalid m hno => exact absurd he hno

theorem failureCount_le_one {α : Type} (out : Except EngineError α) : failureCount out ≤ 1 := by
  unfold failureCount
  split <;> omega

/-- A submission is entered on both sides. -/
theorem Conserved.submission (hk : Conserved n k s) (hs : Sound Expr.Operable s) (he : e.Operable)
    (hn : n + 1 < 2 ^ 64) (fs : List PureFunction) (cancelled : Bool) :
    Conserved (n + 1) (k.submission fs ⟨s, e, cancelled⟩)
      (s.executeExpr (Builtins.ofFunctions fs) e cancelled).2 := by
  obtain ⟨hle, hfailures, hpromotions, hinsertions, htotal, hpaths, hcounts, hfailed, hcompilations, hentries⟩ := hk
  obtain ⟨ctotal, ccompiled, cinterpreted, cfailed, ccompilations⟩ := (receive_cases hs.opened e).counters (by omega)
  obtain ⟨wtotal, wsize, wevictions⟩ := (receive_cases hs.opened e).cache
  obtain ⟨compiled, out, hout, htallied⟩ := executeExpr_tallied hs he fs cancelled
  obtain ⟨rtotal, rpaths, rfailed, rcompilations, rcompileFailures⟩ :=
    htallied.counts he (by rw [ctotal]; omega) (by rw [ccompiled, cinterpreted]; omega) (by rw [cfailed]; omega)
  have hcache : out.2.cache = (s.receive e).cache := by
    rw [← (executeExpr_advances hs he fs cancelled).cache, hout, finished_snd]
  have hresult : failureCount (Attempt.result fs ⟨s, e, cancelled⟩) = failureCount out.1 := by
    rw [Attempt.result, hout, failureCount_finished]
  have hone := failureCount_le_one out.1
  have hrecord : (s.recorded e).cache.total + ((s.recorded e).evicted?.map (·.count.toNat)).getD 0
      = s.cache.total + 1 :=
    Cache.total_record hs.stock.distinct (by omega) e.fingerprint e.callFree e.render
  have hsize : (s.recorded e).cache.evictions.toNat + (s.recorded e).cache.size
      = s.cache.evictions.toNat + s.cache.size + if (s.cache.find? e.fingerprint).isNone then 1 else 0 :=
    Cache.size_record hs.stock.distinct (by omega) e.fingerprint e.callFree e.render
  rw [hout, finished_snd]
  rw [ctotal] at rtotal
  rw [ccompiled, cinterpreted] at rpaths
  rw [cfailed] at rfailed
  constructor
  all_goals
    dsimp only [Ledger.submission]
  · omega
  · omega
  · split <;> omega
  · split <;> omega
  · omega
  · omega
  · rw [hcache, wtotal]
    omega
  · omega
  · rw [rcompilations, rcompileFailures, ccompilations]
    omega
  · rw [hcache, wsize, wevictions, hsize, hentries]

theorem Conserved.idle (hk : Conserved n k s) (env : Bindings) : Conserved (n + 1) k { s with env := env } :=
  ⟨Nat.le_succ_of_le hk.executions_le, hk.failures_le, hk.promotions_le, hk.insertions_le, hk.total, hk.paths,
    hk.counts, hk.failed, hk.compilations, hk.entries⟩

theorem Conserved.empty (hcounters : s.counters = {}) (hentries : s.cache.entries = [])
    (hevictions : s.cache.evictions = 0) : Conserved n {} s := by
  constructor <;> simp [hcounters, hentries, hevictions, Cache.total, Cache.size]

/-- Every request keeps the counters in agreement with the ledger. -/
theorem Conserved.answer (hk : Conserved n k s) (hs : Sound Expr.Operable s) (hn : n + 1 < 2 ^ 64)
    (fs : List PureFunction) {r : Request} (hr : ∀ e, r.expr? = some e → e.Operable) :
    Conserved (n + 1) (k.next fs s r) (s.answer fs r).2 := by
  have hnext (h : r ≠ .reset) : k.next fs s r = match s.attempt? r with
      | some a => k.submission fs a
      | none => k := by
    cases r with
    | reset => exact absurd rfl h
    | _ => rfl
  cases ha : s.attempt? r with
  | some a =>
      have hne : r ≠ .reset := by
        rintro rfl
        cases ha
      obtain ⟨rfl, hexpr, hanswer⟩ := attempt?_eq_some ha fs
      rw [hnext hne, ha, hanswer]
      exact hk.submission hs (hr _ hexpr) hn fs a.cancelled
  | none =>
      by_cases hreset : r = .reset
      · subst hreset
        obtain ⟨arena, log, heq⟩ := hs.reset_eq
        rw [Engine.answer, heq]
        exact .empty rfl rfl rfl
      · obtain ⟨env, hanswer, -⟩ := (answer_of_none fs hs ha).resolve_left hreset
        rw [hnext hreset, ha, hanswer]
        exact hk.idle env

/-! ### All requests -/

theorem Conserved.serve (hk : Conserved n k s) (hs : Sound Expr.Operable s) (fs : List PureFunction)
    (requests : List Request) (hn : n + requests.length < 2 ^ 64) (hr : ∀ e ∈ submitted requests, e.Operable) :
    Conserved (n + requests.length) (k.after fs s requests) (serve (Engine.answer fs) s requests).2 := by
  induction requests generalizing n k s with
  | nil => exact hk
  | cons r rest ih =>
      rw [List.length_cons] at hn ⊢
      obtain ⟨hfirst, hrest⟩ := submitted_cons.mp hr
      have hnext := hk.answer hs (by omega) fs hfirst
      have hlast := ih hnext (hs.answer fs hfirst) (by omega) hrest
      rwa [Nat.add_right_comm, Nat.add_assoc] at hlast

/-- Parsed expressions have operators only, so it is enough to know that of trees which are submitted as they are. -/
theorem operable_of_submitted {requests : List Request}
    (h : ∀ e cancelled, Request.executeExpr e cancelled ∈ requests → e.Operable) :
    ∀ e ∈ submitted requests, e.Operable := by
  intro e he
  obtain ⟨r, hr, hexpr⟩ := List.mem_filterMap.mp he
  cases r with
  | execute source cancelled =>
      rw [Request.expr?] at hexpr
      cases hparse : Expr.parse source { cancelled := cancelled } with
      | error fault =>
          rw [hparse] at hexpr
          cases hexpr
      | ok f =>
          rw [hparse] at hexpr
          obtain rfl := Option.some.inj hexpr
          exact Expr.operable_of_parse hparse
  | executeExpr f cancelled =>
      obtain rfl := Option.some.inj hexpr
      exact h f cancelled hr
  | setVariable name value => cases hexpr
  | environment => cases hexpr
  | reset => cases hexpr

/-- At every point of a session the counters agree with what has happened since the engine was made or reset: the
executions are the submissions, split by the path they took; each of them is in the count of an entry or of one that
made room; failures are the evaluation errors that were answered; compilations and their failures are the promotions;
and the entries, with those that made room, are the ones that were added. -/
theorem counters_conserved (fs : List PureFunction) {config : Config} {vars : Bindings} {s : Engine}
    (hnew : Engine.new config vars = .ok s) (requests : List Request) (hlength : requests.length < 2 ^ 64)
    (htrees : ∀ e cancelled, Request.executeExpr e cancelled ∈ requests → e.Operable) :
    ∃ c l, (serve (answer fs) s requests).2.stats.1 = .ok c ∧ (serve (answer fs) s requests).2.ranking.1 = .ok l ∧
      c.total.toNat = (Ledger.after {} fs s requests).executions ∧
      c.total.toNat = c.compiled.toNat + c.interpreted.toNat ∧
      c.total.toNat = (l.map (·.count.toNat)).sum + (Ledger.after {} fs s requests).departed ∧
      c.failed.toNat = (Ledger.after {} fs s requests).failures ∧
      c.compilations.toNat + c.compileFailures.toNat = (Ledger.after {} fs s requests).promotions ∧
      c.evictions.toNat + c.entries = (Ledger.after {} fs s requests).insertions := by
  have hoperable := operable_of_submitted htrees
  have hs : Sound Expr.Operable s := (new_sound hnew).1
  have hstart : Conserved 0 {} s := by
    obtain ⟨-, rfl⟩ := new_eq hnew
    exact .empty rfl rfl rfl
  have hsound := serve_sound hs fs requests hoperable
  have hk := hstart.serve hs fs requests (by omega) hoperable
  generalize (serve (answer fs) s requests).2 = t at hsound hk ⊢
  refine ⟨{ t.counters with evictions := t.cache.evictions, busy := t.busy, entries := t.cache.size }, t.cache.ranking,
    by rw [stats, query, enter_eq hsound], by rw [ranking, query, enter_eq hsound], hk.total, ?_, ?_, hk.failed,
    hk.compilations, hk.entries⟩
  · exact hk.total.trans hk.paths.symm
  · have hperm : t.cache.ranking.Perm t.cache.entries := List.mergeSort_perm _ _
    rw [(hperm.map _).sum_nat]
    exact hk.total.trans hk.counts.symm

/-! ### A session with one entry at a time -/

/-- Requests to divide by a variable that has no value, twice, for a literal, and to divide by the variable when it has
a value. -/
def crowdedRequests : List Request :=
  [.executeExpr quotient false, .executeExpr quotient false, .executeExpr one false, .setVariable "y" 2,
   .executeExpr quotient false]

theorem crowded_operable : ∀ e cancelled, Request.executeExpr e cancelled ∈ crowdedRequests → e.Operable := by
  have hquotient : quotient.Operable := .binary _ rfl (.int _ _ _) (.ident _ _)
  have hone : one.Operable := .int _ _ _
  intro e cancelled h
  simp only [crowdedRequests, List.mem_cons, Request.executeExpr.injEq, List.not_mem_nil, reduceCtorEq, or_false,
    false_or] at h
  rcases h with ⟨rfl, -⟩ | ⟨rfl, -⟩ | ⟨rfl, -⟩ | ⟨rfl, -⟩
  · exact hquotient
  · exact hquotient
  · exact hone
  · exact hquotient

/-- The division fails twice, and with the second failure its code cannot be generated; then two entries make room. -/
theorem crowded_conserved :
    ∃ s, Engine.new { hotThreshold := 2, maxEntries := 1 } = .ok s ∧ crowdedRequests.length < 2 ^ 64 ∧
      (∀ e cancelled, Request.executeExpr e cancelled ∈ crowdedRequests → e.Operable) ∧
      ∃ c l, (serve (answer []) s crowdedRequests).2.stats.1 = .ok c ∧
        (serve (answer []) s crowdedRequests).2.ranking.1 = .ok l ∧ c.total.toNat = 4 ∧
        c.total.toNat = c.compiled.toNat + c.interpreted.toNat ∧ c.total.toNat = (l.map (·.count.toNat)).sum + 3 ∧
        c.failed.toNat = 2 ∧ c.compilations.toNat + c.compileFailures.toNat = 1 ∧
        c.evictions.toNat + c.entries = 3 := by
  obtain ⟨s, hnew, hledger⟩ : ∃ s, Engine.new { hotThreshold := 2, maxEntries := 1 } = .ok s ∧
      Ledger.after {} [] s crowdedRequests = ⟨4, 2, 1, 3, 3⟩ := ⟨_, rfl, by decide +kernel⟩
  have hlength : crowdedRequests.length < 2 ^ 64 := by decide
  have hconserved := counters_conserved [] hnew crowdedRequests hlength crowded_operable
  rw [hledger] at hconserved
  exact ⟨s, hnew, hlength, crowded_operable, hconserved⟩

end

end Engine

end TierCalc
