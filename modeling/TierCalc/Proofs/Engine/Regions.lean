import TierCalc.Proofs.Engine.Provenance
import TierCalc.Proofs.Eval.Effects
import TierCalc.Proofs.X64.Arena

/-!
# Who owns the executable regions

Between two requests the live regions of an engine in native mode are those of its compiled entries, each of one entry.
A region is prepared for an entry, and is given up when the entry goes or does not take it.

* `Holding`: the live handles are those that the entries own. `Holding.release` is the only way out of it, and
  `Holding.promote` the only way in.
* `Reaches`: requests one after another. A builtin may ask the engine that evaluates it for anything as well, so an
  execution has requests inside.
* `reaches_accounts`: every request keeps the accounts.
-/

namespace TierCalc

/-- Whether an event tells neither that a region could not be given up, nor that code was to run from a region that had
been given up. -/
def Event.Clean : Event → Prop
  | .evicted _ _ _ (some _) => False
  | .releaseFailed _ _ => False
  | .invokeFailed _ reason => reason ≠ X64.RegionError.invokedReleased.message
  | _ => True

namespace Engine

open X64 (Arena Handle)

/-! ### What entries own -/

/-- Whether the live handles are those of entries, each entry with code owns one, and no two have a fingerprint. -/
structure Holding (arena : Arena) (l : List (Entry Artifact)) : Prop where
  distinct : (l.map (·.fingerprint)).Nodup
  owned : arena.live.Perm (l.filterMap Entry.handle?)
  handled : ∀ x ∈ l, ∀ a, x.artifact? = some a → a.handle? ≠ none

section
variable {arena : Arena} {l l' : List (Entry Artifact)} {x y : Entry Artifact} {a : Artifact} {h : Handle}
  {s t u : Engine} {e : Expr}

theorem handle?_eq_none (hx : x.artifact? = none) : x.handle? = none := by
  simp [Entry.handle?, hx]

theorem handle?_of_artifact? (hx : x.artifact? = some a) (ha : a.handle? = some h) : x.handle? = some h :=
  handle?_eq_some.mpr ⟨a, hx, ha⟩

theorem Holding.perm (hl : Holding arena l) (h : l.Perm l') : Holding arena l' where
  distinct := (h.map _).nodup_iff.mp hl.distinct
  owned := hl.owned.trans (h.filterMap _)
  handled x hx := hl.handled x (h.mem_iff.mpr hx)

/-- An entry may change in what identifies neither it nor its code. -/
theorem Holding.replace (hl : Holding arena (x :: l)) (hfp : y.fingerprint = x.fingerprint)
    (hart : y.artifact? = x.artifact?) : Holding arena (y :: l) := by
  obtain ⟨hdistinct, howned, hhandled⟩ := hl
  refine ⟨?_, ?_, ?_⟩
  · rw [List.map_cons, hfp]
    exact hdistinct
  · have hhandle : y.handle? = x.handle? := by rw [Entry.handle?, Entry.handle?, hart]
    rwa [List.filterMap_cons, hhandle, ← List.filterMap_cons]
  · intro z hz a ha
    rcases List.mem_cons.mp hz with rfl | hz
    · exact hhandled x List.mem_cons_self a (hart.symm.trans ha)
    · exact hhandled z (List.mem_cons_of_mem x hz) a ha

theorem Holding.join (hl : Holding arena l) (hfresh : y.fingerprint ∉ l.map (·.fingerprint))
    (hart : y.artifact? = none) : Holding arena (y :: l) := by
  refine ⟨List.nodup_cons.mpr ⟨hfresh, hl.distinct⟩, ?_, ?_⟩
  · rw [List.filterMap_cons_none (handle?_eq_none hart)]
    exact hl.owned
  · intro z hz a ha
    rcases List.mem_cons.mp hz with rfl | hz
    · rw [hart] at ha
      cases ha
    · exact hl.handled z hz a ha

theorem Holding.live (hl : Holding arena l) (hx : x ∈ l) (ha : x.artifact? = some a) (hh : a.handle? = some h) :
    h ∈ arena.live :=
  hl.owned.mem_iff.mpr (List.mem_filterMap.mpr ⟨x, hx, handle?_of_artifact? ha hh⟩)

/-! ### Giving regions up -/

theorem release_live (ha : a.handle? = some h) (hlive : h ∈ arena.live) :
    ∃ arena', a.release arena = (none, arena') ∧ arena.live.Perm (h :: arena'.live) ∧ arena.Ages arena' := by
  obtain ⟨arena', hrelease, hperm, hages⟩ := Arena.release_of_live hlive
  exact ⟨arena', by simp only [Artifact.release, ha, hrelease], hperm, hages⟩

/-- An entry goes with its region, and the others keep theirs. -/
theorem Holding.release (hl : Holding arena (x :: l)) :
    ∃ arena', x.release Artifact.release arena = (none, arena') ∧
      arena.live.Perm (x.handle?.toList ++ arena'.live) ∧ Holding arena' l ∧ arena.Ages arena' := by
  have hdistinct := (List.nodup_cons.mp hl.distinct).2
  have hhandled : ∀ z ∈ l, ∀ a, z.artifact? = some a → a.handle? ≠ none := fun z hz =>
    hl.handled z (List.mem_cons_of_mem x hz)
  have howned := hl.owned
  unfold Entry.release
  cases ha : x.artifact? with
  | none =>
      rw [List.filterMap_cons_none (handle?_eq_none ha)] at howned
      refine ⟨arena, rfl, ?_, ⟨hdistinct, howned, hhandled⟩, .refl arena⟩
      rw [handle?_eq_none ha]
      exact .rfl
  | some a =>
      obtain ⟨h, hh⟩ := Option.ne_none_iff_exists'.mp (hl.handled x List.mem_cons_self a ha)
      obtain ⟨arena', hrelease, hperm, hages⟩ := release_live hh (hl.live List.mem_cons_self ha hh)
      rw [List.filterMap_cons_some (handle?_of_artifact? ha hh)] at howned
      refine ⟨arena', hrelease, ?_, ⟨hdistinct, (hperm.symm.trans howned).cons_inv, hhandled⟩, hages⟩
      rw [handle?_of_artifact? ha hh]
      exact hperm

/-- When all entries have gone, no region is live. -/
theorem Holding.releaseAll (hl : Holding arena l) :
    ∃ arena', Entry.releaseAll Artifact.release l arena = ([], arena') ∧ Holding arena' [] ∧ arena.Ages arena' := by
  induction l generalizing arena with
  | nil => exact ⟨arena, rfl, hl, .refl arena⟩
  | cons x l ih =>
      obtain ⟨arena', hx, -, hrest, hages⟩ := hl.release
      obtain ⟨arena'', hall, hnone, hages'⟩ := ih hrest
      refine ⟨arena'', ?_, hnone, hages.trans hages'⟩
      simp only [Entry.releaseAll, hx, hall]
      rfl

theorem Holding.clearCache (hl : Holding s.arena s.cache.entries) :
    ∃ arena', s.clearCache = (.ok (), { s with cache := s.cache.clear.2, arena := arena' }) ∧ Holding arena' [] ∧
      s.arena.Ages arena' := by
  obtain ⟨arena', hall, hnone, hages⟩ := hl.releaseAll
  refine ⟨arena', ?_, hnone, hages⟩
  simp only [Engine.clearCache, Cache.discard, Cache.clear, hall]
  rfl

/-! ### Submissions -/

/-- Whether a state comes from another by changes to the profile and the code that keep the accounts. -/
structure Stocks (s t : Engine) : Prop where
  holding : Holding t.arena t.cache.entries
  ages : s.arena.Ages t.arena
  clean : (∀ event ∈ s.log, event.Clean) → ∀ event ∈ t.log, event.Clean
  config : t.config = s.config
  closed : t.closed = s.closed

theorem Stocks.trans (h : Stocks s t) (h' : Stocks t u) : Stocks s u where
  holding := h'.holding
  ages := h.ages.trans h'.ages
  clean hs := h'.clean (h.clean hs)
  config := h'.config.trans h.config
  closed := h'.closed.trans h.closed

theorem clean_push {log : Array Event} (hlog : ∀ event ∈ log, event.Clean) {event : Event} (hevent : event.Clean) :
    ∀ event' ∈ log.push event, event'.Clean := by
  intro event' hmem
  rcases Array.mem_push.mp hmem with hmem | rfl
  · exact hlog event' hmem
  · exact hevent

theorem submit_of_none (h : (s.recorded e).evicted? = none) :
    (s.submit e).2.2 = { s with cache := (s.recorded e).cache } := by
  unfold recorded at h ⊢
  unfold Engine.submit Cache.submit
  dsimp only
  rw [h]
  rfl

/-- The entry that has to go gives its region up, which does not fail. -/
theorem Holding.submit_of_some (hs : Holding s.arena s.cache.entries) (h : (s.recorded e).evicted? = some x) :
    ∃ arena, (s.submit e).2.2 = { s with
        cache := (s.recorded e).cache
        arena := arena
        log := s.log.push (.evicted x.fingerprint x.count x.stage.name none) } ∧
      s.arena.live.Perm (x.handle?.toList ++ arena.live) ∧ Holding arena (s.recorded e).cache.entries ∧
      s.arena.Ages arena := by
  obtain ⟨y, rest, hnew, hfp, hcase⟩ := Cache.record_cases hs.distinct e.fingerprint e.callFree e.render
  unfold recorded at h ⊢
  rcases hcase with ⟨-, -, -, -, -, hnone⟩ | ⟨hfresh, -, hart, hold⟩
  · rw [hnone] at h
    cases h
  · rw [h] at hold
    obtain ⟨arena, hrelease, hlive, hrest, hages⟩ := (hs.perm hold).release
    have hholding := (hrest.join (hfp ▸ hfresh) hart).perm hnew.symm
    refine ⟨arena, ?_, hlive, hholding, hages⟩
    unfold Engine.submit Cache.submit
    dsimp only
    rw [h]
    dsimp only [Entry.releaseEvicted]
    rw [hrelease]
    rfl

/-- A submission adds no code, and an entry that has to go gives its region up. -/
theorem Holding.submit (hs : Holding s.arena s.cache.entries) (e : Expr) : Stocks s (s.submit e).2.2 := by
  cases hevicted : (s.recorded e).evicted? with
  | none =>
      rw [submit_of_none hevicted]
      refine ⟨?_, .refl s.arena, fun hlog => hlog, rfl, rfl⟩
      obtain ⟨y, rest, hnew, hfp, hcase⟩ := Cache.record_cases hs.distinct e.fingerprint e.callFree e.render
      rcases hcase with ⟨x, hold, hxfp, -, hart, -⟩ | ⟨hfresh, -, hart, hold⟩
      · exact ((hs.perm hold).replace (hfp.trans hxfp.symm) hart).perm hnew.symm
      · change s.cache.entries.Perm ((s.recorded e).evicted?.toList ++ rest) at hold
        rw [hevicted] at hold
        exact ((hs.perm hold).join (hfp ▸ hfresh) hart).perm hnew.symm
  | some x =>
      obtain ⟨arena, hsubmit, -, hholding, hages⟩ := hs.submit_of_some hevicted
      rw [hsubmit]
      exact ⟨hholding, hages, fun hlog => clean_push hlog trivial, rfl, rfl⟩

/-! ### Compilation -/

/-- In native mode a compilation fails and changes nothing, or its code is prepared. -/
theorem compile_native (hmode : s.config.mode = .native) (e : Expr) :
    (∃ r, s.compile e = (.error r, s)) ∨
      ∃ a h arena', s.compile e = (.ok a, { s with arena := arena' }) ∧ a.handle? = some h ∧
        arena'.live = s.arena.live ++ [h] ∧ s.arena.Ages arena' := by
  unfold compile
  cases Routine.generate e (seedsFor e s.env) with
  | error r => exact .inl ⟨_, rfl⟩
  | ok routine =>
      simp only [hmode]
      split
      · exact .inl ⟨_, rfl⟩
      · rename_i h arena' hp
        obtain ⟨hlive, hages⟩ := Arena.live_of_prepare hp
        exact .inr ⟨⟨routine, some h⟩, h, arena', rfl, rfl, hlive, hages⟩

theorem Holding.take (hl : Holding arena (x :: l)) (hx : x.artifact? = none) {arena' : Arena} (ha : a.handle? = some h)
    (hlive : arena'.live = arena.live ++ [h]) : Holding arena' ({ x with stage := .compiled a } :: l) := by
  refine ⟨hl.distinct, ?_, ?_⟩
  · have hhandle : Entry.handle? { x with stage := .compiled a } = some h := handle?_of_artifact? rfl ha
    have howned := hl.owned
    rw [List.filterMap_cons_none (handle?_eq_none hx)] at howned
    rw [List.filterMap_cons_some hhandle, hlive]
    exact (List.perm_append_singleton h arena.live).trans (howned.cons h)
  · intro z hz b hb
    rcases List.mem_cons.mp hz with rfl | hz
    · obtain rfl := Option.some.inj hb
      rw [ha]
      exact Option.some_ne_none h
    · exact hl.handled z (List.mem_cons_of_mem x hz) b hb

theorem Holding.markFailed (hs : Holding s.arena s.cache.entries) (fp : Fingerprint) :
    Holding s.arena (s.cache.markFailed fp).entries := by
  rcases Cache.markFailed_cases hs.distinct fp with hsame | ⟨x, rest, hold, hnone, hnew⟩
  · rw [hsame]
    exact hs
  · refine Holding.perm ?_ hnew.symm
    exact (hs.perm hold).replace rfl hnone.symm

/-- Code that no entry takes goes back, and what is left is what was live before it was prepared. -/
theorem Holding.giveBack (hl : Holding arena l) {arena' : Arena} (ha : a.handle? = some h)
    (hlive : arena'.live = arena.live ++ [h]) :
    ∃ arena'', a.release arena' = (none, arena'') ∧ Holding arena'' l ∧ arena'.Ages arena'' := by
  have hmem : h ∈ arena'.live := by
    rw [hlive]
    exact List.mem_append_right _ List.mem_cons_self
  obtain ⟨arena'', hrelease, hperm, hages⟩ := release_live ha hmem
  have hback : (h :: arena''.live).Perm (h :: arena.live) := by
    refine hperm.symm.trans ?_
    rw [hlive]
    exact List.perm_append_singleton h arena.live
  exact ⟨arena'', hrelease, ⟨hl.distinct, hback.cons_inv.trans hl.owned, hl.handled⟩, hages⟩

/-- Code that was prepared is installed in the entry that awaits it, or its region is given up. -/
theorem Holding.install (hs : Holding s.arena s.cache.entries) (fp : Fingerprint) {arena' : Arena}
    (ha : a.handle? = some h) (hlive : arena'.live = s.arena.live ++ [h]) (hages : s.arena.Ages arena') :
    Stocks s (Engine.install { s with arena := arena' } fp (.ok a)) := by
  obtain ⟨arena'', hrelease, hback, hages'⟩ := hs.giveBack ha hlive
  cases hclosed : s.closed with
  | true =>
      simp only [Engine.install, if_true, hrelease]
      exact ⟨hback, hages.trans hages', fun hlog => hlog, rfl, hclosed.symm⟩
  | false =>
      cases hinstall : s.cache.install fp a with
      | error r =>
          simp only [Engine.install, Bool.false_eq_true, if_false, hinstall, hrelease]
          exact ⟨hback, hages.trans hages', fun hlog => clean_push hlog trivial, rfl, hclosed.symm⟩
      | ok cache =>
          obtain ⟨x, hx, hstage, rfl⟩ := Cache.install_eq_ok hinstall
          obtain ⟨hmem, -⟩ := Cache.find?_eq_some hx
          obtain ⟨rest, hold, hnew⟩ := Cache.place_perm hmem hs.distinct (e := { x with stage := .compiled a }) rfl
          have hnone : x.artifact? = none := by
            rw [Entry.artifact?, hstage]
            rfl
          simp only [Engine.install, Bool.false_eq_true, if_false, hinstall]
          refine ⟨?_, hages, fun hlog => clean_push hlog trivial, rfl, hclosed.symm⟩
          exact ((hs.perm hold).take hnone ha hlive).perm hnew.symm

theorem Holding.install_error (hs : Holding s.arena s.cache.entries) (fp : Fingerprint) (r : CompileError) :
    Stocks s (s.install fp (.error r)) := by
  unfold Engine.install
  split_ifs
  · exact ⟨hs, .refl s.arena, fun hlog => hlog, rfl, rfl⟩
  · exact ⟨hs.markFailed fp, .refl s.arena, fun hlog => clean_push hlog trivial, rfl, rfl⟩

theorem Holding.promote (hs : Holding s.arena s.cache.entries) (hmode : s.config.mode = .native) (e : Expr)
    (count : UInt64) : Stocks s (s.promote e count) := by
  have hreport : Stocks s (s.report (.hot e.fingerprint count)) :=
    ⟨hs, .refl s.arena, fun hlog => clean_push hlog trivial, rfl, rfl⟩
  unfold Engine.promote
  rcases compile_native (s := s.report (.hot e.fingerprint count)) hmode e with
    ⟨r, hc⟩ | ⟨a, h, arena', hc, ha, hlive, hages⟩
  · rw [hc]
    exact hreport.trans (hreport.holding.install_error e.fingerprint r)
  · rw [hc]
    exact hreport.trans (hreport.holding.install e.fingerprint ha hlive hages)

theorem Holding.receive (hs : Holding s.arena s.cache.entries) (hmode : s.config.mode = .native) (e : Expr) :
    Stocks s (s.receive e) := by
  have hsubmit := hs.submit e
  unfold Engine.receive
  split_ifs
  · exact hsubmit.trans (hsubmit.holding.promote (by rw [hsubmit.config, hmode]) e (s.submit e).1)
  · exact hsubmit

/-! ### Accounts -/

/-- Whether the accounts of an engine in native mode are in order. A closed engine has no entries. -/
structure Accounted (s : Engine) : Prop where
  native : s.config.mode = .native
  holding : Holding s.arena s.cache.entries
  clean : ∀ event ∈ s.log, event.Clean
  emptied : s.closed = true → s.cache.entries = []

/-- Whether one state comes from another without breaking the accounts. A closed engine stays closed. -/
def Accounts (s t : Engine) : Prop :=
  Accounted s → Accounted t ∧ s.arena.Ages t.arena ∧ (s.closed = true → t.closed = true)

theorem Accounts.refl (s : Engine) : Accounts s s := fun hs => ⟨hs, .refl s.arena, fun h => h⟩

theorem Accounts.trans (h : Accounts s t) (h' : Accounts t u) : Accounts s u := by
  intro hs
  obtain ⟨ht, hages, hclosed⟩ := h hs
  obtain ⟨hu, hages', hclosed'⟩ := h' ht
  exact ⟨hu, hages.trans hages', fun hc => hclosed' (hclosed hc)⟩

/-- What touches neither profile nor code nor log keeps the accounts. -/
theorem accounts_of_eq (hconfig : t.config = s.config) (hcache : t.cache = s.cache) (harena : t.arena = s.arena)
    (hlog : t.log = s.log) (hclosed : t.closed = s.closed) : Accounts s t := by
  intro hs
  refine ⟨⟨?_, ?_, ?_, ?_⟩, ?_, ?_⟩
  · rw [hconfig]
    exact hs.native
  · rw [harena, hcache]
    exact hs.holding
  · rw [hlog]
    exact hs.clean
  · rw [hclosed, hcache]
    exact hs.emptied
  · rw [harena]
    exact .refl s.arena
  · rw [hclosed]
    exact fun h => h

theorem accounts_report {event : Event} (s : Engine) (hevent : event.Clean) : Accounts s (s.report event) := fun hs =>
  ⟨⟨hs.native, hs.holding, clean_push hs.clean hevent, hs.emptied⟩, .refl s.arena, fun h => h⟩

theorem Stocks.accounts (h : Stocks s t) (hopen : s.closed = false) : Accounts s t := by
  intro hs
  have hclosed : ¬ t.closed = true := by
    rw [h.closed, hopen]
    exact Bool.false_ne_true
  refine ⟨⟨?_, h.holding, h.clean hs.clean, fun hc => absurd hc hclosed⟩, h.ages, fun hc => ?_⟩
  · rw [h.config]
    exact hs.native
  · rw [hopen] at hc
    cases hc

theorem enter_cases (s : Engine) (cancelled : Bool) :
    (∃ r t, s.enter cancelled = (.error r, t) ∧ Accounts s t) ∨
      s.enter cancelled = (.ok (), s) ∧ s.locked = false ∧ s.closed = false := by
  unfold enter
  split_ifs with hlocked hcancelled hclosed
  · exact .inl ⟨_, s, rfl, .refl s⟩
  · refine .inl ⟨_, _, rfl, ?_⟩
    have hbusy : Accounts s { s with busy := s.busy + 1 } := accounts_of_eq rfl rfl rfl rfl rfl
    apply hbusy.trans
    apply accounts_report
    trivial
  · exact .inl ⟨_, s, rfl, .refl s⟩
  · exact .inr ⟨rfl, Bool.eq_false_of_not_eq_true hlocked, Bool.eq_false_of_not_eq_true hclosed⟩

/-! ### Executions -/

theorem Holding.artifactFor? (hs : Holding s.arena s.cache.entries) (ha : s.artifactFor? e = some a) :
    ∃ h, a.handle? = some h ∧ h ∈ s.arena.live := by
  obtain ⟨x, hfind, -, hart⟩ := artifactFor?_eq_some ha
  obtain ⟨hx, -⟩ := Cache.find?_eq_some hfind
  obtain ⟨h, hh⟩ := Option.ne_none_iff_exists'.mp (hs.handled x hx a hart)
  exact ⟨h, hh, hs.live hx hart hh⟩

theorem runNative_accounts (fp : Fingerprint) (routine : Routine) (hlive : h ∈ s.arena.live) :
    Accounts s (s.runNative fp routine h).2 := by
  unfold runNative
  dsimp only
  split_ifs
  · split
    · rename_i r hinvoke
      have hmessage : r.message ≠ X64.RegionError.invokedReleased.message := by
        rcases Arena.error_of_invoke hlive hinvoke with rfl | rfl
        · decide
        · decide
      apply accounts_report
      exact hmessage
    · split_ifs
      · exact accounts_of_eq rfl rfl rfl rfl rfl
      · exact .refl s
  · exact .refl s

theorem runCompiled_accounts (fns : Builtins Engine) (e : Expr) (s : Engine) : Accounts s (s.runCompiled fns e).2 := by
  intro hs
  cases ha : s.artifactFor? e with
  | none =>
      rw [runCompiled, ha]
      exact Accounts.refl s hs
  | some a =>
      obtain ⟨h, hh, hlive⟩ := hs.holding.artifactFor? ha
      rw [runCompiled_native fns ha hh]
      exact runNative_accounts e.fingerprint a.routine hlive hs

section
variable {fns : Builtins Engine} (hfns : ∀ f ∈ fns.entries, ∀ args t, Accounts t (f.run args t).2)

include hfns in
theorem eval_accounts (e : Expr) (scope : Overlay) (s : Engine) : Accounts s (e.eval fns scope s).world :=
  Expr.eval_world Accounts.refl (fun _ _ _ => Accounts.trans) hfns e scope s

include hfns in
theorem evaluateLocked_accounts (e : Expr) (s : Engine) : Accounts s (evaluateLocked fns e s).world := by
  have hlock : Accounts s { s with locked := true } := accounts_of_eq rfl rfl rfl rfl rfl
  have heval := eval_accounts hfns e (Overlay.on s.env) { s with locked := true }
  exact (hlock.trans heval).trans (accounts_of_eq rfl rfl rfl rfl rfl)

theorem conclude_accounts (compiled : Bool) (r : Run Overlay Engine Int64) :
    Accounts r.world (conclude compiled r).2 := by
  unfold conclude
  dsimp only
  split
  · exact accounts_of_eq rfl rfl rfl rfl rfl
  · exact accounts_of_eq rfl rfl rfl rfl rfl
  · exact .refl r.world

include hfns in
theorem interpret_accounts (e : Expr) (s : Engine) : Accounts s (s.interpret fns e).2 := by
  have heval := eval_accounts hfns e (Overlay.on s.env) s
  unfold interpret
  dsimp only
  split
  · exact heval
  · split_ifs
    · exact heval
    · have hreport : Accounts s ((e.eval fns (Overlay.on s.env) s).world.report (.inputsChanged e.fingerprint)) := by
        apply heval.trans
        apply accounts_report
        trivial
      exact (hreport.trans (evaluateLocked_accounts hfns e _)).trans (conclude_accounts false _)
    · exact heval.trans (conclude_accounts false _)

include hfns in
theorem executeExpr_accounts (e : Expr) (cancelled : Bool) (s : Engine) :
    Accounts s (s.executeExpr fns e cancelled).2 := by
  rcases enter_cases s cancelled with ⟨r, t, henter, hrejected⟩ | ⟨-, hlocked, hclosed⟩
  · simp only [executeExpr, henter]
    exact hrejected
  · intro hs
    have hreceive := (hs.holding.receive hs.native e).accounts hclosed
    have hcompiled := hreceive.trans (runCompiled_accounts fns e (s.receive e))
    rw [executeExpr_eq fns e cancelled hlocked hclosed]
    split
    · rename_i answer t heq
      rw [heq] at hcompiled
      rw [finished_snd]
      exact hcompiled hs
    · rename_i t heq
      rw [heq] at hcompiled
      rw [finished_snd]
      exact hcompiled.trans (interpret_accounts hfns e t) hs

include hfns in
theorem execute_accounts (source : Source) (cancelled : Bool) (s : Engine) :
    Accounts s (s.execute fns source cancelled).2 := by
  unfold execute
  split
  · exact .refl s
  · exact executeExpr_accounts hfns _ cancelled s

end

/-! ### Other requests -/

theorem query_accounts {α : Type} (answer : Engine → Except EngineError α) (s : Engine) :
    Accounts s (s.query answer).2 := by
  rcases enter_cases s false with ⟨r, t, henter, hrejected⟩ | ⟨henter, -, -⟩
  · simp only [query, henter]
    exact hrejected
  · simp only [query, henter]
    exact .refl s

theorem setVariable_accounts (name : String) (value : Int64) (s : Engine) :
    Accounts s (s.setVariable name value).2 := by
  rcases enter_cases s false with ⟨r, t, henter, hrejected⟩ | ⟨henter, -, -⟩
  · simp only [setVariable, henter]
    exact hrejected
  · simp only [setVariable, henter]
    exact accounts_of_eq rfl rfl rfl rfl rfl

/-- Giving all entries up leaves nothing that is live. -/
theorem clearCache_accounts (s : Engine) : Accounts s s.clearCache.2 := by
  intro hs
  obtain ⟨arena', hclear, hnone, hages⟩ := hs.holding.clearCache
  rw [hclear]
  exact ⟨⟨hs.native, hnone, hs.clean, fun _ => rfl⟩, hages, fun h => h⟩

theorem reset_accounts (s : Engine) : Accounts s s.reset.2 := by
  rcases enter_cases s false with ⟨r, t, henter, hrejected⟩ | ⟨henter, -, -⟩
  · simp only [reset, henter]
    exact hrejected
  · simp only [reset, henter]
    have hclear := clearCache_accounts s
    generalize s.clearCache = out at hclear ⊢
    obtain ⟨answer, t⟩ := out
    have hforget : Accounts s { t with counters := {}, busy := 0, env := .empty } :=
      hclear.trans (accounts_of_eq rfl rfl rfl rfl rfl)
    apply hforget.trans
    apply accounts_report
    trivial

theorem close_cases (hs : Accounted s) : Accounted s.close.2 ∧ s.arena.Ages s.close.2.arena ∧ s.close.2.closed = true ∧
    s.close.1 = .ok () := by
  unfold close
  split_ifs with hclosed
  · exact ⟨hs, .refl s.arena, hclosed, rfl⟩
  · obtain ⟨arena', hclear, hnone, hages⟩ := Holding.clearCache
      (s := { s with closed := true }.report (.closing s.cache.size)) hs.holding
    rw [hclear]
    exact ⟨⟨hs.native, hnone, clean_push hs.clean trivial, fun _ => rfl⟩, hages, rfl, rfl⟩

theorem close_accounts (s : Engine) : Accounts s s.close.2 := by
  intro hs
  obtain ⟨hclose, hages, hclosed, -⟩ := close_cases hs
  exact ⟨hclose, hages, fun _ => hclosed⟩

/-! ### Requests one after another -/

/-- Whether requests lead from one state to another. What a builtin does to the engine that calls it is requests too. -/
inductive Reaches : Engine → Engine → Prop where
  | refl (s : Engine) : Reaches s s
  | execute {s t : Engine} {fns : Builtins Engine} (hfns : ∀ f ∈ fns.entries, ∀ args t, Reaches t (f.run args t).2)
      (source : Source) (cancelled : Bool) (h : Reaches s t) : Reaches s (t.execute fns source cancelled).2
  | executeExpr {s t : Engine} {fns : Builtins Engine}
      (hfns : ∀ f ∈ fns.entries, ∀ args t, Reaches t (f.run args t).2) (e : Expr) (cancelled : Bool)
      (h : Reaches s t) : Reaches s (t.executeExpr fns e cancelled).2
  | setVariable {s t : Engine} (name : String) (value : Int64) (h : Reaches s t) :
      Reaches s (t.setVariable name value).2
  | query {s t : Engine} {α : Type} (answer : Engine → Except EngineError α) (h : Reaches s t) :
      Reaches s (t.query answer).2
  | reset {s t : Engine} (h : Reaches s t) : Reaches s t.reset.2
  | close {s t : Engine} (h : Reaches s t) : Reaches s t.close.2

/-- Requests keep the accounts, and so do those inside an execution. -/
theorem reaches_accounts (h : Reaches s t) : Accounts s t := by
  induction h with
  | refl s => exact .refl s
  | execute _ source cancelled _ ihfns ih => exact ih.trans (execute_accounts ihfns source cancelled _)
  | executeExpr _ e cancelled _ ihfns ih => exact ih.trans (executeExpr_accounts ihfns e cancelled _)
  | setVariable name value _ ih => exact ih.trans (setVariable_accounts name value _)
  | query answer _ ih => exact ih.trans (query_accounts answer _)
  | reset _ ih => exact ih.trans (reset_accounts _)
  | close _ ih => exact ih.trans (close_accounts _)

theorem new_accounted {config : Config} {vars : Bindings} (hnew : Engine.new config vars = .ok s)
    (hmode : config.mode = .native) : Accounted s := by
  obtain ⟨-, rfl⟩ := new_eq hnew
  exact ⟨hmode, ⟨List.nodup_nil, .nil, by simp [Cache.new]⟩, by simp, fun h => by cases h⟩

/-- A reset never fails to give a region up. -/
theorem Accounted.reset_answer (hs : Accounted s) (failures : List String) :
    s.reset.1 ≠ .error (.releases failures) := by
  obtain ⟨arena', hclear, -, -⟩ := hs.holding.clearCache
  by_cases hlocked : s.locked = true
  · simp [reset, enter, hlocked]
  · by_cases hclosed : s.closed = true
    · simp [reset, enter, hlocked, hclosed]
    · simp [reset, enter, hlocked, hclosed, hclear]

theorem Accounted.released (hs : Accounted s) (hclosed : s.closed = true) :
    ∀ r ∈ s.arena.regions, r.executable = false := by
  intro r hr
  obtain ⟨h, hget⟩ := List.mem_iff_getElem?.mp hr
  cases hexec : r.executable with
  | false => rfl
  | true =>
      have hlive : h ∈ s.arena.live := Arena.mem_live.mpr ⟨r, hget, hexec⟩
      have howned := hs.holding.owned.mem_iff.mp hlive
      rw [hs.emptied hclosed] at howned
      cases howned

/-- Requests in any order to an engine in native mode. Between them the live regions are those of the compiled entries,
each of one entry. No region is given up twice or run after it was given up, none comes back, and code that is to run
has a live handle. When the engine is closed, all regions ever prepared have been given up. -/
theorem regions_accounted {config : Config} {vars : Bindings} {s t : Engine} (hnew : Engine.new config vars = .ok s)
    (hmode : config.mode = .native) (ht : Reaches s t) :
    t.arena.live.Perm (t.cache.entries.filterMap Entry.handle?) ∧ (t.cache.entries.filterMap Entry.handle?).Nodup ∧
    (∀ x ∈ t.cache.entries, ∀ a, x.artifact? = some a → ∃ h, a.handle? = some h) ∧
    (∀ event ∈ t.log, event.Clean) ∧ (∀ failures, t.reset.1 ≠ .error (.releases failures)) ∧ t.close.1 = .ok () ∧
    (∀ e a, (t.receive e).artifactFor? e = some a → ∃ h, a.handle? = some h ∧ h ∈ (t.receive e).arena.live) ∧
    (∀ u, Reaches t u → t.arena.Ages u.arena) ∧
    (∀ u, Reaches t.close.2 u → ∀ r ∈ u.arena.regions, r.executable = false) := by
  obtain ⟨hacc, -, -⟩ := reaches_accounts ht (new_accounted hnew hmode)
  obtain ⟨hclose, -, hclosed, hanswer⟩ := close_cases hacc
  refine ⟨hacc.holding.owned, ?_, ?_, hacc.clean, hacc.reset_answer, hanswer, ?_, ?_, ?_⟩
  · exact hacc.holding.owned.nodup_iff.mp (Arena.nodup_live t.arena)
  · intro x hx a ha
    exact Option.ne_none_iff_exists'.mp (hacc.holding.handled x hx a ha)
  · intro e a ha
    exact (hacc.holding.receive hacc.native e).holding.artifactFor? ha
  · intro u hu
    obtain ⟨-, hages, -⟩ := reaches_accounts hu hacc
    exact hages
  · intro u hu
    obtain ⟨hu, -, hstays⟩ := reaches_accounts hu hclose
    exact hu.released (hstays hclosed)

/-- A table with a builtin that closes the engine which calls it. -/
def shutting : Builtins Engine := ⟨[⟨"shut", 0, fun _ s => (0, s.close.2)⟩]⟩

theorem reaches_shutting : ∀ f ∈ shutting.entries, ∀ args t, Reaches t (f.run args t).2 := by
  intro f hf args t
  obtain rfl := List.mem_singleton.mp hf
  exact .close (.refl t)

theorem reaches_ofFunctions (fs : List PureFunction) :
    ∀ f ∈ (Builtins.ofFunctions fs : Builtins Engine).entries, ∀ args t, Reaches t (f.run args t).2 := by
  intro f hf args t
  obtain ⟨g, -, rfl⟩ := List.mem_map.mp hf
  exact .refl t

/-- A literal gets a region when it is hot. An expression that closes the engine gives it back. -/
theorem literal_accounted : ∃ s t u h, Engine.new { hotThreshold := 2 } = .ok s ∧ Reaches s t ∧ t.arena.live = [h] ∧
    (t.executeExpr shutting (.call default "shut" default [] default)).2 = u ∧ Reaches s u ∧
    (∀ event ∈ u.log, event.Clean) ∧ ∀ r ∈ u.close.2.arena.regions, r.executable = false := by
  obtain ⟨-, r, -, hgen, -, hsize⟩ := literals_generated
  obtain ⟨s, t, h, hnew, hserved, hentries, -, -⟩ := literal_shared (e := secondLiteral) rfl hgen hsize
  have ht : Reaches s t := by
    rw [← hserved]
    apply Reaches.executeExpr (reaches_ofFunctions [])
    apply Reaches.executeExpr (reaches_ofFunctions [])
    exact .refl s
  have hu := Reaches.executeExpr reaches_shutting (.call default "shut" default [] default) false ht
  obtain ⟨howned, -⟩ := regions_accounted hnew rfl ht
  obtain ⟨-, -, -, hclean, -, -, -, -, hreleased⟩ := regions_accounted hnew rfl hu
  refine ⟨s, t, _, h, hnew, ht, ?_, rfl, hu, hclean, hreleased _ (.refl _)⟩
  rw [hentries] at howned
  exact List.perm_singleton.mp howned

end

end Engine

end TierCalc
