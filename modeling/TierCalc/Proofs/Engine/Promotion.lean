import TierCalc.Proofs.Engine.Provenance

/-!
# When an expression is promoted

The submissions of one expression, from the one that adds its entry to the profile on, for as long as the entry stays.
Code is generated for them once, with the submission that brings their number to the threshold (`Fits.promotes_iff`),
and whether that succeeds settles the entry for good (`Fits.submit`).

Compiled code answers from then on, but only submissions that are spelled as the first one was: the entry has the
canonical form of the first, in which literals stand as they were written. `1` does not run the code that was generated
for it if its entry was added for `01`.
-/

namespace TierCalc.Engine

open Session

/-! ### Submissions of one expression -/

namespace Attempt

/-- The code that generation gives for a submission. -/
def code? (a : Attempt) : Option Routine := (Routine.generate a.expr (seedsFor a.expr a.engine.env)).toOption

/-- The stage of an entry that a submission has settled. The variables that its code reads have values. -/
inductive Settles (a : Attempt) (env : Bindings) : Stage Artifact → Prop where
  | compiled {artifact : Artifact} (hcode : a.code? = some artifact.routine)
      (hbound : ∀ n ∈ seedsFor a.expr a.engine.env, (env.get? n).isSome = true) : Settles a env (.compiled artifact)
  | failed (hcode : a.code? = none) : Settles a env .neverCompile

theorem Settles.ne_cold {a : Attempt} {env : Bindings} {stage : Stage Artifact} (h : a.Settles env stage) :
    stage ≠ .cold := by
  cases h <;> simp

theorem Settles.grow {a : Attempt} {env env' : Bindings} {stage : Stage Artifact} (h : a.Settles env stage)
    (henv : ∀ n, (env.get? n).isSome = true → (env'.get? n).isSome = true) : a.Settles env' stage := by
  cases h with
  | compiled hcode hbound => exact .compiled hcode fun n hn => henv n (hbound n hn)
  | failed hcode => exact .failed hcode

end Attempt

/-- Whether an entry is as submissions leave it, where `h` is the threshold: it counts them until they reach the
threshold, and the one that does settles it. -/
structure Fits (h : Nat) (l : List Attempt) (env : Bindings) (x : Entry Artifact) : Prop where
  cold : l.length < h → x.stage = .cold ∧ x.count.toNat = l.length
  settled : ∀ b, l[h - 1]? = some b → b.Settles env x.stage

namespace Fits

variable {h : Nat} {l : List Attempt} {env : Bindings} {x : Entry Artifact} {threshold : UInt64}

theorem cold_or_settled (hx : Fits h l env x) (hpos : 0 < h) :
    (l.length < h ∧ x.stage = .cold ∧ x.count.toNat = l.length) ∨ ∃ b, l[h - 1]? = some b ∧ b.Settles env x.stage := by
  by_cases hlt : l.length < h
  · exact .inl ⟨hlt, hx.cold hlt⟩
  · have hb : l[h - 1]? = some l[h - 1] := List.getElem?_eq_getElem (by omega)
    exact .inr ⟨_, hb, hx.settled _ hb⟩

/-- The count of a cold entry does not wrap, so the next submission is told from the threshold. -/
theorem count_lt_iff (hcount : x.count.toNat = l.length) (hlt : l.length < threshold.toNat) :
    (x.count + 1).toNat = l.length + 1 ∧ (x.count + 1 < threshold ↔ l.length + 1 < threshold.toNat) := by
  have hsize := threshold.toNat_lt
  have hadd : (x.count + 1).toNat = l.length + 1 := by
    rw [UInt64.toNat_add, hcount, UInt64.toNat_one]
    omega
  refine ⟨hadd, ?_⟩
  rw [UInt64.lt_iff_toNat_lt, hadd]

/-- The submission that reaches the threshold promotes its entry, and no other. -/
theorem promotes_iff (hx : Fits threshold.toNat l env x) (hpos : 0 < threshold.toNat) (compilable : Bool) :
    (x.submit threshold compilable).2 = true ↔ l.length + 1 = threshold.toNat ∧ compilable = true := by
  rcases hx.cold_or_settled hpos with ⟨hlt, hcold, hcount⟩ | ⟨b, hb, hsettles⟩
  · obtain ⟨-, hiff⟩ := count_lt_iff hcount hlt
    rw [Entry.submit_of_cold hcold]
    by_cases hnext : x.count + 1 < threshold
    · have := hiff.mp hnext
      simp only [if_pos hnext, Bool.false_eq_true, false_iff]
      omega
    · have := mt hiff.mpr hnext
      simp only [if_neg hnext, iff_and_self]
      omega
  · obtain ⟨hlength, -⟩ := List.getElem?_eq_some_iff.mp hb
    rw [Entry.submit_of_ne_cold hsettles.ne_cold]
    simp only [Bool.false_eq_true, false_iff]
    omega

theorem count_reached (hx : Fits threshold.toNat l env x) (h : l.length + 1 = threshold.toNat) :
    x.count + 1 = threshold := by
  have hlt : l.length < threshold.toNat := by omega
  obtain ⟨-, hcount⟩ := hx.cold hlt
  obtain ⟨hadd, -⟩ := count_lt_iff hcount hlt
  exact UInt64.toNat_inj.mp (hadd.trans h)

theorem reached {a : Attempt} (hlast : l.length + 1 = h) (ha : a.Settles env x.stage) : Fits h (l ++ [a]) env x := by
  refine ⟨fun hshort => ?_, fun b hb => ?_⟩
  · simp only [List.length_append, List.length_singleton] at hshort
    omega
  · obtain rfl : a = b := by simpa [← hlast] using hb
    exact ha

/-- One more submission keeps the entry as submissions leave it. -/
theorem submit {s : Engine} {a : Attempt} (hx : Fits s.cache.threshold.toNat l s.env x)
    (hpos : 0 < s.cache.threshold.toNat) (ha : a.engine = s) {stage : Stage Artifact}
    (hstage : StageAfter s a.expr x stage) :
    Fits s.cache.threshold.toNat (l ++ [a]) s.env { x with count := x.count + 1, stage := stage } := by
  rcases hx.cold_or_settled hpos with ⟨hlt, hcold, hcount⟩ | ⟨b, hb, hsettles⟩
  · obtain ⟨hadd, hiff⟩ := count_lt_iff hcount hlt
    cases hstage with
    | settled h => contradiction
    | counted _ hnext =>
        have := hiff.mp hnext
        refine ⟨fun _ => ⟨rfl, by simp [hadd]⟩, fun b hb => ?_⟩
        obtain ⟨hlength, -⟩ := List.getElem?_eq_some_iff.mp hb
        simp only [List.length_append, List.length_singleton] at hlength
        omega
    | compiled _ hnext hgen =>
        have := mt hiff.mpr hnext
        refine reached (by omega) (.compiled (by rw [Attempt.code?, ha, hgen]; rfl) fun n hn => ?_)
        rw [ha] at hn
        exact (List.mem_filter.mp hn).2
    | failed _ hnext hgen =>
        have := mt hiff.mpr hnext
        exact reached (by omega) (.failed (by rw [Attempt.code?, ha, hgen]; rfl))
  · obtain ⟨hlength, -⟩ := List.getElem?_eq_some_iff.mp hb
    have hsame : stage = x.stage := by
      have hcold := hsettles.ne_cold
      cases hstage with
      | settled => rfl
      | counted h => contradiction
      | compiled h => contradiction
      | failed h => contradiction
    refine ⟨fun hshort => ?_, fun c hc => ?_⟩
    · simp only [List.length_append, List.length_singleton] at hshort
      omega
    · rw [List.getElem?_append_left hlength] at hc
      rw [hsame]
      exact hx.settled c hc

end Fits

/-! ### Compiled results -/

section
variable {P : Expr → Prop} {s : Engine} {e : Expr} {fs : List PureFunction} {cancelled : Bool} {x : Execution}

theorem compiled_of_none (hs : Sound P s) (hnone : (s.receive e).artifactFor? e = none)
    (hx : (s.executeExpr (Builtins.ofFunctions fs) e cancelled).1 = .ok x) : x.compiled = false := by
  have hrun : (s.receive e).runCompiled (Builtins.ofFunctions fs) e = (none, s.receive e) := by
    rw [runCompiled, hnone]
  rw [executeExpr_eq _ _ _ hs.unlocked hs.opened, hrun] at hx
  dsimp only [finished] at hx
  split at hx
  · cases hx
  · cases hx
    rfl

/-- Code of an expression answers wherever evaluation has a value, if the variables that it reads have values. -/
theorem compiled_of_some (hs : Sound P s) (he : P e) {a : Artifact} (ha : (s.receive e).artifactFor? e = some a)
    {seeds : List String} (hgen : Routine.generate e seeds = .ok a.routine) (hsize : a.routine.size < 2 ^ 31)
    (hbound : ∀ n ∈ seeds, (s.env.get? n).isSome = true)
    (hx : (s.executeExpr (Builtins.ofFunctions fs) e cancelled).1 = .ok x) : x.compiled = true := by
  obtain ⟨hreceive, henv⟩ := hs.receive he
  rw [executeExpr_eq _ _ _ hs.unlocked hs.opened] at hx
  cases hh : a.handle? with
  | none =>
      rw [runCompiled_simulated fs ha hh hreceive.unlocked] at hx
      dsimp only [Prod.map, finished] at hx
      split at hx
      · cases hx
      · cases hx
        rfl
  | some h =>
      obtain ⟨y, hfind, -, hart⟩ := artifactFor?_eq_some ha
      obtain ⟨hy, -⟩ := Cache.find?_eq_some hfind
      have hprepared := (hreceive.stock.kept y hy).prepared a h hart hh
      rw [runCompiled_native _ ha hh] at hx
      rcases runNative_executes fs e.fingerprint hgen hsize hprepared with
        ⟨v, t, hrun, -⟩ | ⟨hrun, ⟨n, hn, hnone⟩ | ⟨r, herror⟩⟩
      · rw [hrun] at hx
        cases hx
        rfl
      · have := hbound n hn
        rw [henv] at hnone
        rw [hnone] at this
        cases this
      · rw [hrun] at hx
        have hexec := interpret_executes fs e hreceive.opened
        have hfst := finished_fst e (s.submit e).1 (s.submit e).2.1 false
          ((s.receive e).interpret (Builtins.ofFunctions fs) e)
        rw [hexec.answer, herror] at hfst
        dsimp only [Prod.map, Option.map, id] at hx
        rw [hx] at hfst
        cases hfst

end

/-! ### The life of an entry -/

open Classical in
/-- The submissions of expressions with the structure of one, among requests. -/
noncomputable def submissions (fs : List PureFunction) (e : Expr) : Engine → List Request → List Attempt
  | _, [] => []
  | s, r :: rest =>
      ((s.attempt? r).filter (·.expr.shape = e.shape)).toList ++ submissions fs e (s.answer fs r).2 rest

/-- Whether the entry of an expression is as its submissions leave it, and is not there as long as there are none. -/
structure Tracked (e : Expr) (l : List Attempt) (s : Engine) : Prop where
  shape : ∀ b ∈ l, b.expr.shape = e.shape
  fresh : l = [] → s.cache.find? e.fingerprint = none
  kept : ∀ first, l.head? = some first → ∃ x, s.cache.find? e.fingerprint = some x ∧ x.expr = first.expr.render ∧
    Fits s.cache.threshold.toNat l s.env x

/-- Whether a submission is covered by code, where `h` is the threshold: generation succeeded for the one that reached
the threshold, and the submission is spelled as the first one. -/
def Covered (h : Nat) (earlier : List Attempt) (a : Attempt) : Prop :=
  (∃ b, (earlier ++ [a])[h - 1]? = some b ∧ b.code?.isSome = true) ∧ a.expr.render = (earlier.headD a).expr.render

/-- What is true of a submission in the life of an entry, after those before it. -/
structure Exact (fs : List PureFunction) (threshold : UInt64) (earlier : List Attempt) (a : Attempt) : Prop where
  generations : (a.after fs).generations =
    if earlier.length + 1 = threshold.toNat ∧ a.expr.callFree = true then
      a.engine.generations.add a.expr.fingerprint threshold a.code?.isSome
    else a.engine.generations
  compiled : ∀ x, a.result fs = .ok x → (x.compiled = true ↔ Covered threshold.toNat earlier a)

section
variable {P : Expr → Prop} {s : Engine} {e : Expr} {fs : List PureFunction} {a : Attempt} {l : List Attempt}
  {r : Request}

theorem fingerprint_congr {f : Expr} (h : f.shape = e.shape) : f.fingerprint = e.fingerprint := by
  rw [← Expr.fingerprint_shape, h, Expr.fingerprint_shape]

/-- The entry that the next submission counts in. -/
theorem Tracked.entryOf (ht : Tracked e l a.engine) (ha : a.expr.shape = e.shape) :
    (a.engine.cache.entryOf a.expr.fingerprint a.expr.render).expr = (l.headD a).expr.render ∧
      Fits a.engine.cache.threshold.toNat l a.engine.env
        (a.engine.cache.entryOf a.expr.fingerprint a.expr.render) := by
  unfold Cache.entryOf
  rw [fingerprint_congr ha]
  cases l with
  | nil =>
      rw [ht.fresh rfl]
      exact ⟨rfl, fun _ => ⟨rfl, rfl⟩, by simp⟩
  | cons first rest =>
      obtain ⟨x, hx, hform, hfits⟩ := ht.kept first rfl
      rw [hx]
      exact ⟨hform, hfits⟩

/-- The code that may run for a submission is that of the submission which settled the entry. -/
theorem Tracked.artifactFor? (ht : Tracked e l a.engine) (ha : a.expr.shape = e.shape)
    (hpos : 0 < a.engine.cache.threshold.toNat) (hopen : a.engine.closed = false) :
    (Covered a.engine.cache.threshold.toNat l a ∧ ∃ b artifact, b ∈ l ++ [a] ∧ b.code? = some artifact.routine ∧
      (∀ n ∈ seedsFor b.expr b.engine.env, (a.engine.env.get? n).isSome = true) ∧
      (a.engine.receive a.expr).artifactFor? a.expr = some artifact) ∨
    ¬ Covered a.engine.cache.threshold.toNat l a ∧ (a.engine.receive a.expr).artifactFor? a.expr = none := by
  obtain ⟨hform, hfits⟩ := ht.entryOf ha
  obtain ⟨stage, hfind, hstage⟩ := find?_receive hopen a.expr
  have hfits' := hfits.submit hpos rfl hstage
  have hartifact : (a.engine.receive a.expr).artifactFor? a.expr =
      if (l.headD a).expr.render == a.expr.render then stage.artifact? else none := by
    unfold Engine.artifactFor?
    rw [hfind, ← hform]
    rfl
  by_cases hsame : a.expr.render = (l.headD a).expr.render
  · rw [if_pos (beq_iff_eq.mpr hsame.symm)] at hartifact
    rcases hfits'.cold_or_settled hpos with ⟨hlt, hcold, -⟩ | ⟨b, hb, hsettles⟩
    · obtain rfl : stage = .cold := hcold
      refine .inr ⟨?_, hartifact⟩
      rintro ⟨⟨b, hb, -⟩, -⟩
      obtain ⟨hlength, -⟩ := List.getElem?_eq_some_iff.mp hb
      omega
    · dsimp only at hsettles
      cases hsettles with
      | compiled hcode hbound =>
          exact .inl ⟨⟨⟨b, hb, by rw [hcode]; rfl⟩, hsame⟩, b, _, List.mem_of_getElem? hb, hcode, hbound, hartifact⟩
      | failed hcode =>
          refine .inr ⟨?_, hartifact⟩
          rintro ⟨⟨c, hc, hsome⟩, -⟩
          obtain rfl : b = c := Option.some.inj (hb.symm.trans hc)
          rw [hcode] at hsome
          cases hsome
  · rw [if_neg fun h => hsame (beq_iff_eq.mp h).symm] at hartifact
    exact .inr ⟨fun h => hsame h.2, hartifact⟩

/-- The next submission in the life of an entry. -/
theorem Tracked.exact (ht : Tracked e l a.engine) (ha : a.expr.shape = e.shape)
    (hpos : 0 < a.engine.cache.threshold.toNat) (hP : Separated P) (hl : ∀ b ∈ l, P b.expr) (hs : Sound P a.engine)
    (he : P a.expr) (fs : List PureFunction) : Exact fs a.engine.cache.threshold l a := by
  refine ⟨?_, fun x hx => ?_⟩
  · obtain ⟨-, hcount, hflag⟩ := recorded_self a.engine a.expr
    have hfits := (ht.entryOf ha).2
    have hiff := hfits.promotes_iff hpos a.expr.callFree
    rw [← hflag] at hiff
    rw [Attempt.after, executeExpr_generations hs he fs a.cancelled]
    by_cases hlast : l.length + 1 = a.engine.cache.threshold.toNat ∧ a.expr.callFree = true
    · rw [if_pos hlast, if_pos (hiff.mpr hlast), hcount, Entry.submit_count, hfits.count_reached hlast.1]
      rfl
    · rw [if_neg hlast, if_neg (mt hiff.mp hlast)]
  · rcases ht.artifactFor? ha hpos hs.opened with ⟨hcovered, b, artifact, hmem, hcode, hbound, hrun⟩ | ⟨hnot, hrun⟩
    · have hb : P b.expr ∧ b.expr.shape = a.expr.shape := by
        rcases List.mem_append.mp hmem with hmem | hmem
        · exact ⟨hl b hmem, (ht.shape b hmem).trans ha.symm⟩
        · obtain rfl := List.mem_singleton.mp hmem
          exact ⟨he, rfl⟩
      have hgen : Routine.generate b.expr (seedsFor b.expr b.engine.env) = .ok artifact.routine := ok_of_toOption hcode
      have hcompiled := compiled_of_some hs he hrun (Routine.generate_congr hb.2 hgen)
        (hP.size b.expr _ _ hb.1 hgen) hbound hx
      simp only [hcompiled, true_iff]
      exact hcovered
    · have hcompiled := compiled_of_none hs hrun hx
      simp only [hcompiled, Bool.false_eq_true, false_iff]
      exact hnot

/-! ### Requests in the life of an entry -/

theorem isSome_get?_execute (fs : List PureFunction) (e : Expr) (env : Bindings) {n : String}
    (h : (env.get? n).isSome = true) : ((Plain.execute fs e env).2.get? n).isSome = true := by
  unfold Plain.execute
  dsimp only
  split
  · exact Bindings.isSome_get?_setAll h _
  · exact h

theorem answer_other (hP : Separated P) (hs : Sound P s) (hr : ∀ e, r.expr? = some e → P e)
    (hsep : ∀ f, P f → f.fingerprint = e.fingerprint → f.shape = e.shape)
    (hother : ∀ a, s.attempt? r = some a → a.expr.shape ≠ e.shape) {x : Entry Artifact}
    (hx : (s.answer fs r).2.cache.find? e.fingerprint = some x) :
    s.cache.find? e.fingerprint = some x ∧
      ∀ n, (s.env.get? n).isSome = true → ((s.answer fs r).2.env.get? n).isSome = true := by
  cases ha : s.attempt? r with
  | some a =>
      obtain ⟨rfl, hexpr, hanswer⟩ := attempt?_eq_some ha fs
      have hPa : P a.expr := hr _ hexpr
      have hne : a.expr.fingerprint ≠ e.fingerprint := fun h => hother a ha (hsep _ hPa h)
      rw [hanswer, Attempt.after] at hx ⊢
      rw [(executeExpr_advances hs hPa fs a.cancelled).cache] at hx
      refine ⟨find?_of_receive hs.opened hne hx, fun n hn => ?_⟩
      rw [(executeExpr_answer hP hs hPa fs a.cancelled).2]
      exact isSome_get?_execute fs a.expr _ hn
  | none =>
      rcases answer_of_none fs hs ha with rfl | ⟨env, hanswer, hgrow⟩
      · rw [hs.answer_reset] at hx
        cases hx
      · rw [hanswer] at hx ⊢
        exact ⟨hx, hgrow⟩

theorem Tracked.other (ht : Tracked e l s) (hP : Separated P) (hs : Sound P s) (hr : ∀ e, r.expr? = some e → P e)
    (hsep : ∀ f, P f → f.fingerprint = e.fingerprint → f.shape = e.shape)
    (hother : ∀ a, s.attempt? r = some a → a.expr.shape ≠ e.shape)
    (hstays : ((s.answer fs r).2.cache.find? e.fingerprint).isSome = true) : Tracked e l (s.answer fs r).2 := by
  obtain ⟨x, hx⟩ := Option.isSome_iff_exists.mp hstays
  obtain ⟨hx', hgrow⟩ := answer_other hP hs hr hsep hother hx
  refine ⟨ht.shape, fun hl => ?_, fun first hfirst => ?_⟩
  · rw [ht.fresh hl] at hx'
    cases hx'
  · obtain ⟨y, hy, hform, hfits⟩ := ht.kept first hfirst
    obtain rfl : y = x := Option.some.inj (hy.symm.trans hx')
    rw [answer_threshold fs hs hr]
    exact ⟨y, hx, hform, hfits.cold, fun b hb => (hfits.settled b hb).grow hgrow⟩

theorem Tracked.own (ht : Tracked e l a.engine) (ha : a.expr.shape = e.shape)
    (hpos : 0 < a.engine.cache.threshold.toNat) (hP : Separated P) (hs : Sound P a.engine) (he : P a.expr)
    (fs : List PureFunction) :
    Tracked e (l ++ [a]) (a.after fs) := by
  obtain ⟨hform, hfits⟩ := ht.entryOf ha
  obtain ⟨stage, hfind, hstage⟩ := find?_receive hs.opened a.expr
  have hfits' := hfits.submit hpos rfl hstage
  refine ⟨fun b hb => ?_, by simp, fun first hfirst => ?_⟩
  · rcases List.mem_append.mp hb with hb | hb
    · exact ht.shape b hb
    · rw [List.mem_singleton.mp hb]
      exact ha
  · have hhead : l.headD a = first := by
      cases l with
      | nil => simpa using hfirst
      | cons b rest => simpa using hfirst
    rw [Attempt.after, (executeExpr_advances hs he fs a.cancelled).cache, receive_threshold hs.opened,
      ← fingerprint_congr ha]
    refine ⟨_, hfind, ?_, hfits'.cold, fun b hb => (hfits'.settled b hb).grow fun n hn => ?_⟩
    · rw [← hhead]
      exact hform
    · rw [(executeExpr_answer hP hs he fs a.cancelled).2]
      exact isSome_get?_execute fs a.expr _ hn

theorem submissions_own (h : s.attempt? r = some a) (ha : a.expr.shape = e.shape) (rest : List Request) :
    submissions fs e s (r :: rest) = a :: submissions fs e (s.answer fs r).2 rest := by
  simp [submissions, h, Option.filter, ha]

theorem submissions_other (hother : ∀ a, s.attempt? r = some a → a.expr.shape ≠ e.shape) (rest : List Request) :
    submissions fs e s (r :: rest) = submissions fs e (s.answer fs r).2 rest := by
  cases hb : s.attempt? r with
  | none => simp [submissions, hb]
  | some b => simp [submissions, hb, hother b hb]

/-- Every submission in the life of an entry is exact. -/
theorem Tracked.run (hP : Separated P) (requests : List Request) (hs : Sound P s)
    (hr : ∀ f ∈ submitted requests, P f) (hsep : ∀ f, P f → f.fingerprint = e.fingerprint → f.shape = e.shape)
    (hpos : 0 < s.cache.threshold.toNat) (ht : Tracked e l s)
    (hl : ∀ b ∈ l, P b.expr) (hstays : Stays fs e.fingerprint s requests) {earlier later : List Attempt}
    (hsub : submissions fs e s requests = earlier ++ a :: later) :
    Exact fs s.cache.threshold (l ++ earlier) a := by
  induction requests generalizing s l earlier with
  | nil => simp [submissions] at hsub
  | cons r rest ih =>
      obtain ⟨hfirst, hrest⟩ := submitted_cons.mp hr
      obtain ⟨hthere, hstays⟩ := hstays
      have hsound := hs.answer fs hfirst
      have hthreshold := answer_threshold fs hs hfirst
      by_cases hown : ∃ b, s.attempt? r = some b ∧ b.expr.shape = e.shape
      · obtain ⟨b, hb, hshape⟩ := hown
        obtain ⟨rfl, hexpr, hanswer⟩ := attempt?_eq_some hb fs
        have hPb : P b.expr := hfirst _ hexpr
        rw [submissions_own hb hshape] at hsub
        cases earlier with
        | nil =>
            obtain rfl : b = a := (List.cons.inj hsub).1
            rw [List.append_nil]
            exact ht.exact hshape hpos hP hl hs hPb fs
        | cons c earlier =>
            obtain ⟨rfl, htail⟩ := List.cons.inj hsub
            have htracked : Tracked e (l ++ [b]) (b.engine.answer fs r).2 := by
              rw [hanswer]
              exact ht.own hshape hpos hP hs hPb fs
            have hlb : ∀ c ∈ l ++ [b], P c.expr := by
              simpa [or_imp, forall_and] using ⟨hl, hPb⟩
            have hexact := ih hsound hrest (by rwa [hthreshold]) htracked hlb hstays htail
            rwa [hthreshold, List.append_assoc] at hexact
      · have hother : ∀ b, s.attempt? r = some b → b.expr.shape ≠ e.shape := fun b hb hshape => hown ⟨b, hb, hshape⟩
        rw [submissions_other hother] at hsub
        have htracked := ht.other hP hs hfirst hsep hother hthere
        have hexact := ih hsound hrest (by rwa [hthreshold]) htracked hl hstays hsub
        rwa [hthreshold] at hexact

theorem mem_submissions {requests : List Request} (h : a ∈ submissions fs e s requests) :
    a.expr ∈ submitted requests ∧ a.expr.shape = e.shape := by
  induction requests generalizing s with
  | nil => simp [submissions] at h
  | cons r rest ih =>
      rw [submitted, List.filterMap_cons]
      by_cases hown : ∃ b, s.attempt? r = some b ∧ b.expr.shape = e.shape
      · obtain ⟨b, hb, hshape⟩ := hown
        obtain ⟨-, hexpr, -⟩ := attempt?_eq_some hb fs
        rw [submissions_own hb hshape] at h
        rw [hexpr]
        rcases List.mem_cons.mp h with rfl | h
        · exact ⟨List.mem_cons_self, hshape⟩
        · obtain ⟨hmem, hshape⟩ := ih h
          exact ⟨List.mem_cons_of_mem _ hmem, hshape⟩
      · rw [submissions_other fun b hb hshape => hown ⟨b, hb, hshape⟩] at h
        obtain ⟨hmem, hshape⟩ := ih h
        refine ⟨?_, hshape⟩
        cases r.expr? with
        | none => exact hmem
        | some f => exact List.mem_cons_of_mem _ hmem

theorem serve_threshold (fs : List PureFunction) (requests : List Request) (hs : Sound P s)
    (hr : ∀ f ∈ submitted requests, P f) : (serve (answer fs) s requests).2.cache.threshold = s.cache.threshold := by
  induction requests generalizing s with
  | nil => rfl
  | cons r rest ih =>
      obtain ⟨hfirst, hrest⟩ := submitted_cons.mp hr
      exact (ih (hs.answer fs hfirst) hrest).trans (answer_threshold fs hs hfirst)

theorem new_threshold {config : Config} {vars : Bindings} (h : Engine.new config vars = .ok s) :
    s.cache.threshold = config.hotThreshold ∧ 0 < config.hotThreshold.toNat := by
  obtain ⟨hcheck, rfl⟩ := new_eq h
  have hge : ¬ config.hotThreshold < 1 := by
    intro hlt
    simp [Config.check, hlt] at hcheck
  refine ⟨if_neg hge, ?_⟩
  rw [UInt64.lt_iff_toNat_lt] at hge
  simpa [Nat.pos_iff_ne_zero] using hge

/-- An entry stays while its expression is submitted again and again. -/
theorem stays_submitted (es : List Expr) (hs : Sound P s) (hes : ∀ f ∈ es, P f ∧ f.fingerprint = e.fingerprint) :
    Stays fs e.fingerprint s (es.map (.executeExpr · false)) := by
  induction es generalizing s with
  | nil => trivial
  | cons f rest ih =>
      obtain ⟨hf, hfp⟩ := hes f List.mem_cons_self
      obtain ⟨stage, hfind, -⟩ := find?_receive hs.opened f
      refine ⟨?_, ih (hs.executeExpr hf fs false) fun g hg => hes g (List.mem_cons_of_mem f hg)⟩
      change ((s.executeExpr (Builtins.ofFunctions fs) f false).2.cache.find? e.fingerprint).isSome = true
      rw [(executeExpr_advances hs hf fs false).cache, ← hfp, hfind]
      rfl

theorem result_of_value (hP : Separated P) (hs : Sound P a.engine) (he : P a.expr) {v : Int64}
    (hv : (Plain.execute fs a.expr a.engine.env).1 = .ok v) : ∃ x, a.result fs = .ok x := by
  have hanswer := (executeExpr_answer hP hs he fs a.cancelled).1
  unfold Attempt.result
  cases h : (a.engine.executeExpr (Builtins.ofFunctions fs) a.expr a.cancelled).1 with
  | error r =>
      rw [h, hv] at hanswer
      cases hanswer
  | ok x => exact ⟨x, rfl⟩

end

/-! ### Two spellings -/

def one : Expr := .int default "1" 1

/-- The literal `01`, which has the structure of `1`. -/
def paddedOne : Expr := .int default "01" 1

theorem paddedOne_shape : paddedOne.shape = one.shape := rfl

set_option maxRecDepth 4000 in
theorem one_generated : ∃ r, Routine.generate one [] = .ok r ∧ r.size < 2 ^ 31 := by
  obtain ⟨r, hr, hsize⟩ := (Option.any_eq_true _ _).mp
    (by decide : (Routine.made? one [] 20).any (fun r => r.size < 2 ^ 31) = true)
  exact ⟨r, Routine.generate_of_made hr, of_decide_eq_true hsize⟩

theorem spellings_separated : Separated fun e => e.shape = one.shape where
  shape e f he hf _ := he.trans hf.symm
  size e vars r he hgen := by
    obtain ⟨r', hgen', hsize⟩ := one_generated
    have hseeds : seedsFor e vars = [] := by
      have hreads : e.reads = one.reads := by rw [← Expr.reads_shape, he, Expr.reads_shape]
      rw [seedsFor, hreads]
      exact seedsFor_literal default "1" 1 vars
    rw [hseeds] at hgen
    have hsame := Routine.generate_congr he hgen
    rw [hgen'] at hsame
    cases hsame
    exact hsize

theorem one_code (s : Engine) : (Attempt.code? ⟨s, one, false⟩).isSome = true := by
  obtain ⟨r, hgen, -⟩ := one_generated
  have hseeds : seedsFor one s.env = [] := seedsFor_literal default "1" 1 s.env
  rw [Attempt.code?, hseeds, hgen]
  rfl

theorem spellings_submitted {e : Expr} (he : e.shape = one.shape) : ∃ s t u, Engine.new { hotThreshold := 2 } = .ok s ∧
    s.cache.find? one.fingerprint = none ∧
    Stays [] one.fingerprint s [.executeExpr e false, .executeExpr one false, .executeExpr one false] ∧
    submissions [] one s [.executeExpr e false, .executeExpr one false, .executeExpr one false]
      = [⟨s, e, false⟩, ⟨t, one, false⟩, ⟨u, one, false⟩] ∧
    Sound (fun e => e.shape = one.shape) s ∧
    (∃ y, Attempt.result [] ⟨t, one, false⟩ = .ok y) ∧ ∃ z, Attempt.result [] ⟨u, one, false⟩ = .ok z := by
  obtain ⟨s, hnew, hempty⟩ : ∃ s, Engine.new { hotThreshold := 2 } = .ok s ∧ s.cache.entries = [] := ⟨_, rfl, rfl⟩
  have hs : Sound (fun e => e.shape = one.shape) s := (new_sound hnew).1
  have ht := hs.executeExpr he [] false
  have hu := ht.executeExpr (e := one) rfl [] false
  refine ⟨s, _, _, hnew, by rw [Cache.find?, hempty]; rfl, ?_, ?_, hs,
    result_of_value spellings_separated ht rfl rfl, result_of_value spellings_separated hu rfl rfl⟩
  · refine stays_submitted [e, one, one] hs fun f hf => ?_
    have hf' : f.shape = one.shape := by
      simp only [List.mem_cons, List.not_mem_nil, or_false] at hf
      rcases hf with rfl | rfl | rfl
      · exact he
      · rfl
      · rfl
    exact ⟨hf', fingerprint_congr hf'⟩
  · have hown (s : Engine) {f : Expr} (hf : f.shape = one.shape) (rest : List Request) :
        submissions [] one s (.executeExpr f false :: rest)
          = ⟨s, f, false⟩ :: submissions [] one (s.answer [] (.executeExpr f false)).2 rest :=
      submissions_own rfl hf rest
    rw [hown _ he, hown _ rfl, hown _ rfl]
    rfl

/-! ### Exactness -/

/-- The submissions of one expression to an engine of any configuration, from the one that adds its entry on, for as
long as the entry stays. Code is generated with the one that reaches the threshold, unless the expression has a call,
and with no other: the engine reports it hot and counts one compilation, as a success or a failure. If that succeeds, it
and all later ones that have a value have it from compiled code, provided they are spelled as the first was; no other
one has. -/
theorem promotion_exact (fs : List PureFunction) {config : Config} {vars : Bindings} {s : Engine}
    (hnew : Engine.new config vars = .ok s) (before requests : List Request)
    (hshape : ∀ e ∈ submitted (before ++ requests), ∀ f ∈ submitted (before ++ requests),
      e.fingerprint = f.fingerprint → e.shape = f.shape)
    (hsize : ∀ e ∈ submitted (before ++ requests), ∀ vars r,
      Routine.generate e (seedsFor e vars) = .ok r → r.size < 2 ^ 31)
    {e : Expr} (habsent : (serve (answer fs) s before).2.cache.find? e.fingerprint = none)
    (hstays : Stays fs e.fingerprint (serve (answer fs) s before).2 requests) {earlier later : List Attempt}
    {a : Attempt} (hsub : submissions fs e (serve (answer fs) s before).2 requests = earlier ++ a :: later) :
    ((a.after fs).generations =
        if earlier.length + 1 = config.hotThreshold.toNat ∧ a.expr.callFree = true then
          a.engine.generations.add a.expr.fingerprint config.hotThreshold a.code?.isSome
        else a.engine.generations) ∧
      ∀ x, a.result fs = .ok x → (x.compiled = true ↔
        (∃ b, (earlier ++ [a])[config.hotThreshold.toNat - 1]? = some b ∧ b.code?.isSome = true) ∧
          a.expr.render = (earlier.headD a).expr.render) := by
  have hP : Separated (· ∈ submitted (before ++ requests)) :=
    ⟨fun e f he hf => hshape e he f hf, fun e vars r he => hsize e he vars r⟩
  have hbefore : ∀ f ∈ submitted before, f ∈ submitted (before ++ requests) := fun f hf => by
    rw [submitted_append]
    exact List.mem_append_left _ hf
  have hrequests : ∀ f ∈ submitted requests, f ∈ submitted (before ++ requests) := fun f hf => by
    rw [submitted_append]
    exact List.mem_append_right _ hf
  have hs := (new_sound (P := (· ∈ submitted (before ++ requests))) hnew).1
  have hsound := serve_sound hs fs before hbefore
  obtain ⟨hthreshold, hpos⟩ := new_threshold hnew
  rw [← serve_threshold fs before hs hbefore] at hthreshold
  have hmem : a ∈ submissions fs e (serve (answer fs) s before).2 requests := by
    rw [hsub]
    simp
  obtain ⟨ha, hashape⟩ := mem_submissions hmem
  have hsep : ∀ f ∈ submitted (before ++ requests), f.fingerprint = e.fingerprint → f.shape = e.shape :=
    fun f hf hfp => (hshape f hf a.expr (hrequests _ ha) (hfp.trans (fingerprint_congr hashape).symm)).trans hashape
  have htracked : Tracked e [] (serve (answer fs) s before).2 := ⟨by simp, fun _ => habsent, by simp⟩
  have hexact := Tracked.run hP requests hsound hrequests hsep (by rwa [hthreshold]) htracked (by simp) hstays hsub
  rw [hthreshold, List.nil_append] at hexact
  exact ⟨hexact.generations, hexact.compiled⟩

/-- The literal `1` is compiled with its second submission, and answered from its code then and after. -/
theorem one_promoted : ∃ s a b c, Engine.new { hotThreshold := 2 } = .ok s ∧
    submissions [] one s [.executeExpr one false, .executeExpr one false, .executeExpr one false] = [a, b, c] ∧
    (a.after []).generations = a.engine.generations ∧
    (b.after []).generations = b.engine.generations.add one.fingerprint 2 true ∧
    (c.after []).generations = c.engine.generations ∧
    ∃ y z, b.result [] = .ok y ∧ c.result [] = .ok z ∧ y.compiled = true ∧ z.compiled = true := by
  obtain ⟨s, t, u, hnew, habsent, hstays, hsub, -, ⟨y, hy⟩, z, hz⟩ := spellings_submitted (e := one) rfl
  have hexact (earlier later : List Attempt) (a : Attempt)
      (h : [⟨s, one, false⟩, ⟨t, one, false⟩, ⟨u, one, false⟩] = earlier ++ a :: later) :=
    promotion_exact [] hnew [] [.executeExpr one false, .executeExpr one false, .executeExpr one false]
      (by simp [submitted, Request.expr?])
      (by simpa [submitted, Request.expr?] using fun vars r => spellings_separated.size one vars r rfl)
      habsent hstays (hsub.trans h)
  obtain ⟨ha, -⟩ := hexact [] [⟨t, one, false⟩, ⟨u, one, false⟩] ⟨s, one, false⟩ rfl
  obtain ⟨hb, hy'⟩ := hexact [⟨s, one, false⟩] [⟨u, one, false⟩] ⟨t, one, false⟩ rfl
  obtain ⟨hc, hz'⟩ := hexact [⟨s, one, false⟩, ⟨t, one, false⟩] [] ⟨u, one, false⟩ rfl
  rw [if_neg (by simp)] at ha hc
  rw [if_pos ⟨rfl, rfl⟩, one_code t] at hb
  exact ⟨s, _, _, _, hnew, hsub, ha, hb, hc, y, z, hy, hz, (hy' y hy).mpr ⟨⟨_, rfl, one_code t⟩, rfl⟩,
    (hz' z hz).mpr ⟨⟨_, rfl, one_code t⟩, rfl⟩⟩

/-- The literal `1` is submitted after `01`, which has its structure. It reaches the threshold and its code is
generated, but neither then nor later is it answered from that. -/
theorem respelled_interpreted : paddedOne.shape = one.shape ∧ ∃ s a b c, Engine.new { hotThreshold := 2 } = .ok s ∧
    Stays [] one.fingerprint s [.executeExpr paddedOne false, .executeExpr one false, .executeExpr one false] ∧
    submissions [] one s [.executeExpr paddedOne false, .executeExpr one false, .executeExpr one false] = [a, b, c] ∧
    (b.after []).generations = b.engine.generations.add one.fingerprint 2 true ∧
    ∃ y z, b.result [] = .ok y ∧ c.result [] = .ok z ∧ y.compiled = false ∧ z.compiled = false := by
  obtain ⟨s, t, u, hnew, habsent, hstays, hsub, hs, ⟨y, hy⟩, z, hz⟩ := spellings_submitted paddedOne_shape
  obtain ⟨hthreshold, hpos⟩ := new_threshold hnew
  have htracked : Tracked one [] s := ⟨by simp, fun _ => habsent, by simp⟩
  have hexact (earlier later : List Attempt) (a : Attempt)
      (h : [⟨s, paddedOne, false⟩, ⟨t, one, false⟩, ⟨u, one, false⟩] = earlier ++ a :: later) :
      Exact [] 2 earlier a := by
    have hrun := Tracked.run spellings_separated _ hs (by simp [submitted, Request.expr?, paddedOne_shape])
      (fun f hf _ => hf) (by rwa [hthreshold]) htracked (by simp) hstays (hsub.trans h)
    rwa [hthreshold] at hrun
  have hb := hexact [⟨s, paddedOne, false⟩] [⟨u, one, false⟩] ⟨t, one, false⟩ rfl
  have hc := hexact [⟨s, paddedOne, false⟩, ⟨t, one, false⟩] [] ⟨u, one, false⟩ rfl
  have hrender : one.render ≠ paddedOne.render := by decide
  have hgenerations := hb.generations
  rw [if_pos ⟨rfl, rfl⟩, one_code t] at hgenerations
  refine ⟨paddedOne_shape, s, _, _, _, hnew, hstays, hsub, hgenerations, y, z, hy, hz, ?_, ?_⟩
  · exact Bool.eq_false_of_not_eq_true fun h => hrender ((hb.compiled y hy).mp h).2
  · exact Bool.eq_false_of_not_eq_true fun h => hrender ((hc.compiled z hz).mp h).2

end TierCalc.Engine
