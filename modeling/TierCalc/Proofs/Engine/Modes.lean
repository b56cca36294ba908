import TierCalc.Proofs.Engine.Promotion
import TierCalc.Proofs.Engine.Tally
import TierCalc.Proofs.Profile.Artifacts

/-!
# Engines in different modes

An engine prepares its code to run, or only pretends to. What a caller sees of it does not depend on that, apart from
times and from the path that each execution is counted on.

An `Outline` is what is left of an engine when handles, regions, the log and the path counters are forgotten. It can be
asked the same things: it generates code, but it evaluates every expression, and says that code would have run if there
is some for the expression.

* `outline_receive`, `outline_executeExpr`: an engine of any mode does to its outline what the outline does. The one
  thing to know is that the variables which code reads are bound as long as the entry of the code is there (`Primed`).
* `views_outline`: what is seen of an engine is seen of its outline, so engines with the same outline cannot be told
  apart.
-/

namespace TierCalc

/-- The counters without the times and without the path that executions took. -/
def Counters.pathless (c : Counters) : Counters :=
  { c with compiled := 0, interpreted := 0, executionTime := 0, compilationTime := 0 }

namespace Engine

open Session

/-! ### What is seen of an engine -/

/-- What is seen of a request and after it: the answer and the whole result of an execution, then the counters that
say nothing about times and paths, and the entries of the profile with the sizes of their code. -/
structure View where
  answer : Answer
  result? : Option (Except EngineError Execution)
  counters : Except EngineError Counters
  entries : Except EngineError (List (Entry Nat))

def view (fs : List PureFunction) (s : Engine) (r : Request) : View where
  answer := (s.answer fs r).1
  result? := (s.attempt? r).map (Attempt.result fs)
  counters := (s.answer fs r).2.stats.1.map Counters.pathless
  entries := (s.answer fs r).2.ranking.1.map (List.map (Entry.map Artifact.size))

/-- The views of requests one after another, for a machine with views and steps. -/
def observe {σ : Type} (view : σ → Request → View) (next : σ → Request → σ) : σ → List Request → List View
  | _, [] => []
  | s, r :: rest => view s r :: observe view next (next s r) rest

def views (fs : List PureFunction) : Engine → List Request → List View :=
  observe (view fs) fun s r => (s.answer fs r).2

/-! ### Outlines -/

/-- What of an engine does not depend on how code is run. -/
structure Outline where
  cache : Cache Routine
  env : Bindings
  counters : Counters
  busy : UInt64

def outline (s : Engine) : Outline := ⟨s.cache.map Artifact.routine, s.env, s.counters.pathless, s.busy⟩

namespace Outline

/-- What the profile says to a submission. -/
def recorded (o : Outline) (e : Expr) : Submission Routine := o.cache.record e.fingerprint e.callFree e.render

/-- The outline after a submission. -/
def receive (o : Outline) (e : Expr) : Outline :=
  if (o.recorded e).promote then
    match Routine.generate e (seedsFor e o.env) with
    | .ok r =>
        { o with
          cache := (o.recorded e).cache.settle e.fingerprint (.compiled r)
          counters := (o.counters.compilation 0).pathless }
    | .error _ =>
        { o with
          cache := (o.recorded e).cache.settle e.fingerprint .neverCompile
          counters := (o.counters.compileFailure 0).pathless }
  else { o with cache := (o.recorded e).cache }

/-- The code that may run for an expression. -/
def code? (o : Outline) (e : Expr) : Option Routine :=
  match o.cache.find? e.fingerprint with
  | some x => if x.expr == e.render then x.artifact? else none
  | none => none

/-- Executes an expression by evaluating it. The result says that code ran if there is some. -/
def execute (fs : List PureFunction) (o : Outline) (e : Expr) : Except EngineError Execution × Outline :=
  let t := o.receive e
  let (answer, env) := Plain.execute fs e o.env
  match answer with
  | .ok v =>
      (.ok ⟨v, env, (t.code? e).isSome, e.fingerprint, (o.recorded e).count, 0,
          if (o.recorded e).promote then some 0 else none⟩,
        { t with env := env, counters := (t.counters.execution 0 false false).pathless })
  | .error (.failed r) =>
      (.error (.failed r), { t with env := env, counters := (t.counters.execution 0 false true).pathless })
  | .error r => (.error r, { t with env := env })

/-- The outline after a request. -/
def next (fs : List PureFunction) (o : Outline) (r : Request) : Outline :=
  match r.expr?, r with
  | some e, _ => (o.execute fs e).2
  | none, .setVariable name value => { o with env := o.env.set name value }
  | none, .reset => ⟨o.cache.clear.2, .empty, {}, 0⟩
  | none, _ => o

/-- The counters, with those that the profile keeps. -/
def stats (o : Outline) : Counters :=
  { o.counters with evictions := o.cache.evictions, busy := o.busy, entries := o.cache.size }

/-- The view of a request to an outline. -/
def view (fs : List PureFunction) (o : Outline) (r : Request) : View where
  answer := (Plain.answer fs o.env r).1
  result? := r.expr?.map fun e => (o.execute fs e).1
  counters := .ok (o.next fs r).stats
  entries := .ok ((o.next fs r).cache.ranking.map (Entry.map Routine.size))

end Outline

section
variable {P : Expr → Prop} {s : Engine} {e : Expr} {fs : List PureFunction}

theorem recorded_outline (s : Engine) (e : Expr) : s.outline.recorded e = (s.recorded e).map Artifact.routine :=
  Cache.record_map Artifact.routine s.cache e.fingerprint e.callFree e.render

theorem settle_eq {c : Cache Artifact} {fp : Fingerprint} {x : Entry Artifact} (hx : c.find? fp = some x)
    (stage : Stage Artifact) :
    (c.put { x with stage := stage }).map Artifact.routine
      = (c.map Artifact.routine).settle fp (stage.map Artifact.routine) := by
  rw [Cache.settle_map, Cache.settle, hx]

/-- A submission does to the outline what it does to the engine. -/
theorem outline_receive (hopen : s.closed = false) (e : Expr) : (s.receive e).outline = s.outline.receive e := by
  have hrecorded := recorded_outline s e
  have hreceived := receive_cases hopen e
  generalize s.receive e = t at hreceived ⊢
  unfold Outline.receive
  rw [hrecorded]
  cases hreceived with
  | counted arena log h hlog =>
      rw [if_neg (by simp [Submission.map, h])]
      rfl
  | compiled arena log h hlog hx hstage hgen =>
      rw [if_pos (by simp [Submission.map, h])]
      change _ = match Routine.generate e (seedsFor e s.env) with | .ok r => _ | .error _ => _
      rw [hgen]
      unfold outline
      rw [settle_eq hx]
      rfl
  | failed arena log h hlog hx hstage hgen =>
      rw [if_pos (by simp [Submission.map, h])]
      change _ = match Routine.generate e (seedsFor e s.env) with | .ok r => _ | .error _ => _
      rw [hgen]
      unfold outline
      rw [settle_eq hx]
      rfl

theorem code?_outline (s : Engine) (e : Expr) : s.outline.code? e = (s.artifactFor? e).map Artifact.routine := by
  unfold Outline.code? artifactFor?
  change (match (s.cache.map Artifact.routine).find? e.fingerprint with | some x => _ | none => _) = _
  rw [Cache.find?_map]
  cases s.cache.find? e.fingerprint with
  | none => rfl
  | some x =>
      change (if x.expr == e.render then (x.map Artifact.routine).artifact? else none) = _
      rw [Entry.artifact?_map]
      dsimp only
      split_ifs <;> rfl

/-! ### Code that can run -/

/-- Whether all code was generated from expressions that were submitted, and the variables that it reads are bound. -/
def Primed (P : Expr → Prop) (s : Engine) : Prop :=
  ∀ fp x a, s.cache.find? fp = some x → x.artifact? = some a → ∃ f vars, P f ∧ f.fingerprint = fp ∧
    Routine.generate f (seedsFor f vars) = .ok a.routine ∧ ∀ n ∈ seedsFor f vars, (s.env.get? n).isSome = true

/-- Code stays ready as long as its entry does and no variable is forgotten. -/
theorem Primed.grow (hs : Primed P s) {t : Engine} (hcache : t.cache = s.cache)
    (henv : ∀ n, (s.env.get? n).isSome = true → (t.env.get? n).isSome = true) : Primed P t := by
  intro fp x a hx hart
  rw [hcache] at hx
  obtain ⟨f, vars, hf, hfp, hgen, hbound⟩ := hs fp x a hx hart
  exact ⟨f, vars, hf, hfp, hgen, fun n hn => henv n (hbound n hn)⟩

/-- Code is generated for variables that are bound at the time. -/
theorem Primed.receive (hprimed : Primed P s) (hs : Sound P s) (he : P e) : Primed P (s.receive e) := by
  intro fp x a hx hart
  rw [(hs.receive he).2]
  by_cases hfp : e.fingerprint = fp
  · subst hfp
    obtain ⟨stage, hfind, hafter⟩ := find?_receive hs.opened e
    obtain rfl := Option.some.inj (hfind.symm.trans hx)
    have hstage : stage.artifact? = some a := hart
    cases hafter with
    | settled h =>
        cases hold : s.cache.find? e.fingerprint with
        | none => simp [Cache.entryOf, hold] at h
        | some y =>
            rw [Cache.entryOf, hold] at hstage
            exact hprimed _ y a hold hstage
    | counted => cases hstage
    | compiled _ _ hgen =>
        cases hstage
        exact ⟨e, s.env, he, rfl, hgen, fun n hn => (List.mem_filter.mp hn).2⟩
    | failed => cases hstage
  · exact hprimed fp x a (find?_of_receive hs.opened hfp hx) hart

theorem Primed.executeExpr (hprimed : Primed P s) (hP : Separated P) (hs : Sound P s) (he : P e)
    (fs : List PureFunction) (cancelled : Bool) :
    Primed P (s.executeExpr (Builtins.ofFunctions fs) e cancelled).2 := by
  refine (hprimed.receive hs he).grow (executeExpr_advances hs he fs cancelled).cache fun n hn => ?_
  rw [(hs.receive he).2] at hn
  rw [(executeExpr_answer hP hs he fs cancelled).2]
  exact isSome_get?_execute fs e s.env hn

/-- A reset forgets variables, but only together with all code. -/
theorem Primed.answer (hprimed : Primed P s) (hP : Separated P) (hs : Sound P s) (fs : List PureFunction) {r : Request}
    (hr : ∀ e, r.expr? = some e → P e) : Primed P (s.answer fs r).2 := by
  cases ha : s.attempt? r with
  | some a =>
      obtain ⟨rfl, hexpr, hanswer⟩ := attempt?_eq_some ha fs
      rw [hanswer]
      exact hprimed.executeExpr hP hs (hr _ hexpr) fs a.cancelled
  | none =>
      rcases answer_of_none fs hs ha with rfl | ⟨env, hanswer, hgrow⟩
      · intro fp x a hx
        rw [hs.answer_reset] at hx
        cases hx
      · rw [hanswer]
        exact hprimed.grow rfl hgrow

theorem Primed.new {config : Config} {vars : Bindings} (h : Engine.new config vars = .ok s) : Primed P s := by
  obtain ⟨-, rfl⟩ := new_eq h
  intro fp x a hx
  cases hx

/-- A value comes from code exactly if there is code for the expression, prepared or not. -/
theorem compiled_eq (hP : Separated P) (hs : Sound P s) (hprimed : Primed P s) (he : P e) {cancelled : Bool}
    {x : Execution} (hx : (s.executeExpr (Builtins.ofFunctions fs) e cancelled).1 = .ok x) :
    x.compiled = ((s.receive e).artifactFor? e).isSome := by
  cases ha : (s.receive e).artifactFor? e with
  | none => exact compiled_of_none hs ha hx
  | some a =>
      obtain ⟨y, hy, -, hart⟩ := artifactFor?_eq_some ha
      obtain ⟨f, vars, hf, hfp, hgen, hbound⟩ := hprimed.receive hs he _ y a hy hart
      rw [(hs.receive he).2] at hbound
      have hshape : f.shape = e.shape := hP.shape f e hf he hfp
      exact compiled_of_some hs he ha (Routine.generate_congr hshape hgen) (hP.size f vars a.routine hf hgen) hbound hx

/-! ### Executions -/

/-- How a run is counted does not depend on its path, apart from the path counters. -/
theorem pathless_execution (c : Counters) (compiled failed : Bool) :
    (c.execution 0 compiled failed).pathless = (c.pathless.execution 0 false failed).pathless := rfl

theorem Advances.outline {t : Engine} (h : Advances s t) :
    t.outline = { s.outline with env := t.env, counters := t.counters.pathless } := by
  obtain ⟨env, counters, log, rfl⟩ := h.state
  rfl

theorem eq_of_answer {x y : Except EngineError Int64} {a b : Bindings} (h : x.map (·, a) = y.map (·, b)) : x = y := by
  cases x <;> cases y <;> cases h <;> rfl

/-- An execution has the result that the outline has, and does to the outline what the outline does. -/
theorem outline_executeExpr (hP : Separated P) (hs : Sound P s) (hprimed : Primed P s) (he : P e)
    (fs : List PureFunction) (cancelled : Bool) :
    Prod.map id outline (s.executeExpr (Builtins.ofFunctions fs) e cancelled) = s.outline.execute fs e := by
  have hadvances := executeExpr_advances hs he fs cancelled
  obtain ⟨hanswer, henv⟩ := executeExpr_answer hP hs he fs cancelled
  have hcompiled (x : Execution) (hx : (s.executeExpr (Builtins.ofFunctions fs) e cancelled).1 = .ok x) :
      x.compiled = ((s.outline.receive e).code? e).isSome := by
    rw [← outline_receive hs.opened, code?_outline, Option.isSome_map]
    exact compiled_eq hP hs hprimed he hx
  obtain ⟨compiled, ⟨answer, t⟩, heq, htallied⟩ := executeExpr_tallied hs he fs cancelled
  rw [heq] at hadvances hanswer henv hcompiled ⊢
  rw [finished_snd] at hadvances henv
  rw [finished_fst] at hanswer
  have hplain : Plain.execute fs e s.outline.env = (answer, t.env) := Prod.ext (eq_of_answer hanswer).symm henv.symm
  have houtline := hadvances.outline
  rw [outline_receive hs.opened] at houtline
  have hcounters : (s.receive e).counters.pathless = (s.outline.receive e).counters := by
    rw [← outline_receive hs.opened]
    rfl
  unfold Outline.execute
  dsimp only at htallied ⊢
  rw [hplain, recorded_outline]
  generalize t.counters = c at htallied houtline
  cases htallied with
  | value v =>
      dsimp only [finished, Prod.map, id] at hcompiled ⊢
      rw [houtline, ← hcompiled _ rfl, pathless_execution, hcounters]
      rfl
  | failure r =>
      dsimp only [finished, Prod.map, id]
      rw [houtline, pathless_execution, hcounters]
  | invalid n =>
      dsimp only [finished, Prod.map, id]
      rw [houtline, hcounters]

/-! ### Requests -/

/-- A request does to the outline what it does to the engine. -/
theorem outline_answer (hP : Separated P) (hs : Sound P s) (hprimed : Primed P s) (fs : List PureFunction) {r : Request}
    (hr : ∀ e, r.expr? = some e → P e) : (s.answer fs r).2.outline = s.outline.next fs r := by
  have hexpr := attempt?_expr s r
  unfold Outline.next
  cases ha : s.attempt? r with
  | some a =>
      rw [ha] at hexpr
      obtain ⟨rfl, -, hanswer⟩ := attempt?_eq_some ha fs
      rw [hanswer, ← hexpr]
      exact congrArg Prod.snd (outline_executeExpr hP hs hprimed (hr _ hexpr.symm) fs a.cancelled)
  | none =>
      rw [ha] at hexpr
      rw [← hexpr]
      cases r with
      | execute source cancelled =>
          cases hparse : Expr.parse source { cancelled := cancelled } with
          | error fault =>
              simp only [answer, execute, hparse]
              rfl
          | ok e =>
              simp only [attempt?, hparse] at ha
              cases ha
      | executeExpr e cancelled => cases ha
      | setVariable name value =>
          simp only [answer, setVariable, enter_eq hs]
          rfl
      | environment =>
          simp only [answer, bindings, query, enter_eq hs]
          rfl
      | reset =>
          obtain ⟨arena, log, hreset⟩ := hs.reset_eq
          simp only [answer, hreset]
          rfl

/-! ### Views -/

theorem stats_outline (hs : Sound P s) : s.stats.1.map Counters.pathless = .ok s.outline.stats := by
  rw [stats, query, enter_eq hs, Outline.stats, outline, Cache.size_map]
  rfl

theorem ranking_outline (hs : Sound P s) :
    s.ranking.1.map (List.map (Entry.map Artifact.size))
      = .ok (s.outline.cache.ranking.map (Entry.map Routine.size)) := by
  have hsize : Entry.map Routine.size ∘ Entry.map Artifact.routine = Entry.map Artifact.size := by
    funext x
    exact Entry.map_map Artifact.routine Routine.size x
  rw [ranking, query, enter_eq hs, outline, Cache.ranking_map, List.map_map, hsize]
  rfl

theorem view_outline (hP : Separated P) (hs : Sound P s) (hprimed : Primed P s) (fs : List PureFunction) {r : Request}
    (hr : ∀ e, r.expr? = some e → P e) : s.view fs r = s.outline.view fs r := by
  have hnext := outline_answer hP hs hprimed fs hr
  have hsound := hs.answer fs hr
  have hresult : (s.attempt? r).map (Attempt.result fs) = r.expr?.map fun e => (s.outline.execute fs e).1 := by
    rw [← attempt?_expr s r]
    cases ha : s.attempt? r with
    | none => rfl
    | some a =>
        obtain ⟨rfl, hexpr, -⟩ := attempt?_eq_some ha fs
        exact congrArg (some ∘ Prod.fst) (outline_executeExpr hP hs hprimed (hr _ hexpr) fs a.cancelled)
  rw [view, Outline.view, (answer_plain hP hs fs hr).1, hresult, stats_outline hsound, ranking_outline hsound, hnext]
  rfl

theorem views_outline (hP : Separated P) (hs : Sound P s) (hprimed : Primed P s) (fs : List PureFunction)
    (requests : List Request) (hr : ∀ e ∈ submitted requests, P e) :
    views fs s requests = observe (Outline.view fs) (Outline.next fs) s.outline requests := by
  induction requests generalizing s with
  | nil => rfl
  | cons r rest ih =>
      obtain ⟨hfirst, hrest⟩ := submitted_cons.mp hr
      have hviews := ih (hs.answer fs hfirst) (hprimed.answer hP hs fs hfirst) hrest
      rw [outline_answer hP hs hprimed fs hfirst] at hviews
      exact congrArg₂ List.cons (view_outline hP hs hprimed fs hfirst) hviews

theorem outline_new {config : Config} {vars : Bindings} (h : Engine.new config vars = .ok s) :
    s.outline = ⟨Cache.new config.hotThreshold config.maxEntries, vars, {}, 0⟩ := by
  obtain ⟨-, rfl⟩ := new_eq h
  rfl

end

/-- Engines with the same threshold and capacity cannot be told apart, whatever their modes: all requests have the same
results, and after each of them the entries and the counters are the same, apart from times and paths. -/
theorem modes_alike (fs : List PureFunction) (config config' : Config)
    (hthreshold : config.hotThreshold = config'.hotThreshold) (hcapacity : config.maxEntries = config'.maxEntries)
    {vars : Bindings} {s t : Engine} (hs : Engine.new config vars = .ok s) (ht : Engine.new config' vars = .ok t)
    (requests : List Request)
    (hshape : ∀ e ∈ submitted requests, ∀ f ∈ submitted requests, e.fingerprint = f.fingerprint → e.shape = f.shape)
    (hsize : ∀ e ∈ submitted requests, ∀ vars r, Routine.generate e (seedsFor e vars) = .ok r → r.size < 2 ^ 31) :
    views fs s requests = views fs t requests := by
  have hP : Separated (· ∈ submitted requests) :=
    ⟨fun e f he hf => hshape e he f hf, fun e vars r he => hsize e he vars r⟩
  have hviews {config : Config} {u : Engine} (hu : Engine.new config vars = .ok u) :
      views fs u requests = observe (Outline.view fs) (Outline.next fs) u.outline requests :=
    views_outline hP (new_sound hu).1 (Primed.new hu) fs requests fun _ he => he
  have houtline : s.outline = t.outline := by
    rw [outline_new hs, outline_new ht, hthreshold, hcapacity]
  rw [hviews hs, hviews ht, houtline]

theorem quotient_alike :
    ∃ s t, Engine.new { hotThreshold := 1 } = .ok s ∧ Engine.new { hotThreshold := 1, mode := .simulate } = .ok t ∧
      views PureFunction.defaults s quotientRequests = views PureFunction.defaults t quotientRequests := by
  refine ⟨_, _, rfl, rfl, ?_⟩
  exact modes_alike PureFunction.defaults { hotThreshold := 1 } { hotThreshold := 1, mode := .simulate } rfl rfl rfl rfl
    quotientRequests (by simp [submitted_quotient]) (by simpa [submitted_quotient] using quotient_size)

end Engine

end TierCalc
