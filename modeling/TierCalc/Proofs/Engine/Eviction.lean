import TierCalc.Proofs.Engine.Regions
import TierCalc.Proofs.Profile.Counting
import TierCalc.Proofs.Profile.Lifecycle

/-!
# The entry that makes room

A full cache gives up one entry before it takes in another: the one that was submitted least, and of several the one
with the lowest fingerprint. There is exactly one such entry (`Yields.unique`), and to find it the entries may be gone
through in any order (`Yields.perm`). Its artifact is released once, wherever artifacts live and whether or not that
succeeds (`submit_noted`); in an engine its region is given up (`Accounted.evicts`).
-/

namespace TierCalc

variable {α : Type}

/-! ### The order in which entries go -/

namespace Entry

/-- Whether an entry goes before another: it was submitted less, or as often and has the lower fingerprint. -/
def Before (x y : Entry α) : Prop :=
  x.count.toNat < y.count.toNat ∨
    x.count.toNat = y.count.toNat ∧ x.fingerprint.value.toNat < y.fingerprint.value.toNat

variable {x y z : Entry α}

theorem yieldsBefore_iff : x.yieldsBefore y = true ↔ x.Before y := by
  simp [yieldsBefore, Before, UInt64.lt_iff_toNat_lt, ← UInt64.toNat_inj]

theorem Before.trans (h : x.Before y) (h' : y.Before z) : x.Before z := by
  unfold Before at *
  omega

theorem Before.asymm (h : x.Before y) : ¬ y.Before x := by
  unfold Before at *
  omega

theorem before_of_not (hne : x.fingerprint ≠ y.fingerprint) (h : ¬ y.Before x) : x.Before y := by
  have hvalue : x.fingerprint.value.toNat ≠ y.fingerprint.value.toNat := fun heq =>
    hne (congrArg Fingerprint.mk (UInt64.toNat_inj.mp heq))
  unfold Before at *
  omega

end Entry

section
variable {ρ ε : Type} (free : α → ρ → Option ε × ρ)

/-- A release that also writes down which artifact it was asked to release. -/
def noted (a : α) (place : List α × ρ) : Option ε × List α × ρ :=
  let (failure?, rest) := free a place.2
  (failure?, place.1 ++ [a], rest)

theorem Cache.submit_noted (c : Cache α) (fp : Fingerprint) (compilable : Bool) (expr : String) (place : ρ) :
    c.submit (noted free) fp compilable expr ([], place) =
      (c.record fp compilable expr,
        match (c.record fp compilable expr).evicted?.bind Entry.artifact? with
        | none => (none, [], place)
        | some a => ((free a place).1, [a], (free a place).2)) := by
  unfold Cache.submit
  generalize c.record fp compilable expr = r
  dsimp only
  cases r.evicted? with
  | none => rfl
  | some x =>
      dsimp only [Entry.releaseEvicted, Entry.release, Option.bind_some]
      cases x.artifact? <;> rfl

end

namespace Cache

/-- The entry that goes before all others. -/
structure Yields (l : List (Entry α)) (x : Entry α) : Prop where
  mem : x ∈ l
  first : ∀ y ∈ l, y ≠ x → x.Before y

section
variable {l l' : List (Entry α)} {x y : Entry α}

theorem Yields.unique (hx : Yields l x) (hy : Yields l y) : y = x := by
  by_contra hne
  exact (hx.first y hy.mem hne).asymm (hy.first x hx.mem (Ne.symm hne))

theorem Yields.perm (hx : Yields l x) (h : l.Perm l') : Yields l' x :=
  ⟨h.mem_iff.mp hx.mem, fun y hy => hx.first y (h.mem_iff.mpr hy)⟩

/-- What one pass over the entries finds goes before all others. -/
theorem yields_least? (hl : (l.map (·.fingerprint)).Nodup) (h : least? l = some x) : Yields l x := by
  induction l generalizing x with
  | nil => cases h
  | cons e l ih =>
      rw [List.map_cons, List.nodup_cons] at hl
      rw [least?] at h
      cases hm : least? l with
      | none =>
          rw [hm] at h
          obtain rfl := Option.some.inj h
          rw [least?_eq_none hm]
          exact ⟨List.mem_singleton_self e, fun y hy hne => absurd (List.mem_singleton.mp hy) hne⟩
      | some m =>
          have hfirst := ih hl.2 hm
          rw [hm] at h
          obtain rfl := Option.some.inj h
          split_ifs with hbefore
          · rw [Entry.yieldsBefore_iff] at hbefore
            refine ⟨List.mem_cons_of_mem e hfirst.mem, fun y hy hne => ?_⟩
            rcases List.mem_cons.mp hy with rfl | hy
            · exact hbefore
            · exact hfirst.first y hy hne
          · rw [Entry.yieldsBefore_iff] at hbefore
            have hem : e.Before m :=
              Entry.before_of_not (fun heq => hl.1 (heq ▸ List.mem_map_of_mem hfirst.mem)) hbefore
            refine ⟨List.mem_cons_self, fun y hy hne => ?_⟩
            rcases List.mem_cons.mp hy with rfl | hy
            · exact absurd rfl hne
            · by_cases hym : y = m
              · exact hym ▸ hem
              · exact hem.trans (hfirst.first y hy hym)

end

/-! ### The caches that are reached -/

/-- The caches that calls can lead to, if the entries may be in any order at any time. -/
inductive Reachable (threshold : UInt64) (capacity : Int) : Cache α → Prop where
  | new : Reachable threshold capacity (Cache.new threshold capacity)
  | call {c : Cache α} (hc : Reachable threshold capacity c) (call : Call α) :
      Reachable threshold capacity (c.after call)
  | reorder {c : Cache α} (hc : Reachable threshold capacity c) {order : List (Entry α)} (h : order.Perm c.entries) :
      Reachable threshold capacity { c with entries := order }

section
variable {threshold : UInt64} {capacity : Int} {c : Cache α} {order : List (Entry α)} {fp : Fingerprint}
  {x : Entry α}

theorem Tidy.reorder (hc : Tidy c) (h : order.Perm c.entries) : Tidy { c with entries := order } :=
  ⟨hc.capacity, h.length_eq ▸ hc.size, (h.map _).nodup_iff.mpr hc.distinct⟩

theorem Reachable.tidy (hc : Reachable threshold capacity c) : Tidy c := by
  induction hc with
  | new => exact tidy_new threshold capacity
  | call _ call ih => exact ih.after call
  | reorder _ h ih => exact ih.reorder h

theorem reachable_history (threshold : UInt64) (capacity : Int) (calls : List (Call α)) (i : Nat) :
    Reachable threshold capacity (history threshold capacity calls i) := by
  induction i with
  | zero => exact .new
  | succ i ih =>
      unfold history at *
      cases h : calls[i]? with
      | none =>
          rw [reached_beyond h]
          exact ih
      | some call =>
          rw [reached_succ h]
          exact ih.call call

theorem Tidy.find?_reorder (hc : Tidy c) (h : order.Perm c.entries) (fp : Fingerprint) :
    ({ c with entries := order } : Cache α).find? fp = c.find? fp := by
  have horder := hc.reorder h
  cases hfind : ({ c with entries := order } : Cache α).find? fp with
  | none =>
      cases hfind' : c.find? fp with
      | none => rfl
      | some x =>
          obtain ⟨hx, rfl⟩ := find?_eq_some hfind'
          rw [horder.find?_of_mem (h.mem_iff.mpr hx)] at hfind
          cases hfind
  | some x =>
      obtain ⟨hx, rfl⟩ := find?_eq_some hfind
      exact (hc.find?_of_mem (h.mem_iff.mp hx)).symm

/-! ### What a submission removes -/

/-- A full cache gives up the entry that goes before all others, and keeps the rest. -/
theorem Tidy.evictIfFull_full (hc : Tidy c) (hfull : c.capacity ≤ c.size) :
    ∃ x, c.evictIfFull.1 = some x ∧ Yields c.entries x ∧ c.entries.Perm (x :: c.evictIfFull.2.entries) := by
  have hperm := evictIfFull_perm hc.distinct
  cases hleast : least? c.entries with
  | none =>
      have hcapacity := hc.capacity
      rw [Cache.size, least?_eq_none hleast, List.length_nil] at hfull
      omega
  | some x =>
      have hout : c.evictIfFull.1 = some x := by
        rw [Cache.evictIfFull, if_neg (Nat.not_lt.mpr hfull), hleast]
      rw [hout] at hperm
      exact ⟨x, hout, yields_least? hc.distinct hleast, hperm⟩

theorem evictIfFull_room (h : c.size < c.capacity) : c.evictIfFull = (none, c) := by
  rw [evictIfFull, if_pos h]

/-- The first submission under a fingerprint adds an entry beside those that were not removed. -/
theorem record_adds (h : c.find? fp = none) (compilable : Bool) (expr : String) :
    ∃ y, y.fingerprint = fp ∧ y.expr = expr ∧ y.count = 1 ∧ (c.record fp compilable expr).cache.find? fp = some y ∧
      (c.record fp compilable expr).cache.entries.Perm (y :: c.evictIfFull.2.entries) := by
  have hnew : fp ∉ c.evictIfFull.2.entries.map (·.fingerprint) := find?_eq_none (find?_evictIfFull_of_none h)
  have hfp := Entry.submit_fingerprint (⟨fp, expr, 0, .cold⟩ : Entry α) c.threshold compilable
  have hself := find?_put_self c.evictIfFull.2 (Entry.submit ⟨fp, expr, 0, .cold⟩ c.threshold compilable).1
  rw [hfp] at hself
  rw [record_of_none h]
  exact ⟨_, hfp, Entry.submit_expr _ _ _, Entry.submit_count _ _ _, hself, place_new (by simpa using hnew)⟩

variable {ρ ε : Type} {free : α → ρ → Option ε × ρ} {place : ρ}

/-- A submission of what is there: it changes its entry, and nothing else. -/
structure Resubmitted (c : Cache α) (x : Entry α) (compilable : Bool) (place : ρ)
    (out : Submission α × Option ε × List α × ρ) : Prop where
  evicted : out.1.evicted? = none
  released : out.2 = (none, [], place)
  evictions : out.1.cache.evictions = c.evictions
  entries : ∃ rest, c.entries.Perm (x :: rest) ∧
    out.1.cache.entries.Perm ((x.submit c.threshold compilable).1 :: rest)

/-- A submission of what is not there: it adds an entry with a count of one. If there is no room for it, the one entry
that goes before all others is removed, and its artifact is released once. -/
structure Admitted (free : α → ρ → Option ε × ρ) (c : Cache α) (fp : Fingerprint) (expr : String) (place : ρ)
    (out : Submission α × Option ε × List α × ρ) : Prop where
  found : ∃ y, out.1.cache.find? fp = some y ∧ y.expr = expr ∧ y.count = 1
  room : c.size < c.capacity →
    out.1.evicted? = none ∧ out.2 = (none, [], place) ∧
      ∃ y, y.fingerprint = fp ∧ out.1.cache.entries.Perm (y :: c.entries)
  full : c.capacity ≤ c.size →
    ∃ victim, (∀ x, Yields c.entries x ↔ x = victim) ∧ out.1.evicted? = some victim ∧
      (victim.artifact? = none → out.2 = (none, [], place)) ∧
      (∀ a, victim.artifact? = some a → out.2 = ((free a place).1, [a], (free a place).2)) ∧
      ∃ y rest, y.fingerprint = fp ∧ c.entries.Perm (victim :: rest) ∧ out.1.cache.entries.Perm (y :: rest)

theorem Tidy.resubmitted (hc : Tidy c) (hx : c.find? fp = some x) (compilable : Bool) (expr : String) :
    Resubmitted c x compilable place (c.submit (noted free) fp compilable expr ([], place)) := by
  rw [submit_noted, record_of_some hx]
  refine ⟨rfl, rfl, rfl, ?_⟩
  exact place_perm (find?_eq_some hx).1 hc.distinct (Entry.submit_fingerprint x c.threshold compilable).symm

theorem Tidy.admitted (hc : Tidy c) (h : c.find? fp = none) (compilable : Bool) (expr : String) :
    Admitted free c fp expr place (c.submit (noted free) fp compilable expr ([], place)) := by
  obtain ⟨y, hfp, hexpr, hcount, hfound, hentries⟩ := record_adds h compilable expr
  have hevicted : (c.record fp compilable expr).evicted? = c.evictIfFull.1 := by rw [record_of_none h]
  rw [submit_noted, hevicted]
  refine ⟨⟨y, hfound, hexpr, hcount⟩, fun hroom => ?_, fun hfull => ?_⟩
  · rw [evictIfFull_room hroom] at hevicted hentries ⊢
    exact ⟨hevicted, rfl, y, hfp, hentries⟩
  · obtain ⟨victim, hout, hyields, hperm⟩ := hc.evictIfFull_full hfull
    rw [hout] at hevicted ⊢
    refine ⟨victim, fun x => ⟨fun hx => hyields.unique hx, fun hx => hx ▸ hyields⟩, hevicted, fun hnone => ?_,
      fun a ha => ?_, y, _, hfp, hperm, hentries⟩
    · rw [Option.bind_some, hnone]
    · rw [Option.bind_some, ha]

/-! ### The order of the entries does not matter -/

variable {out : Submission α × Option ε × List α × ρ} {compilable : Bool} {expr : String}

theorem Resubmitted.of_reorder (h : order.Perm c.entries)
    (hr : Resubmitted { c with entries := order } x compilable place out) : Resubmitted c x compilable place out := by
  obtain ⟨rest, hold, hnew⟩ := hr.entries
  exact ⟨hr.evicted, hr.released, hr.evictions, rest, h.symm.trans hold, hnew⟩

theorem Admitted.of_reorder (h : order.Perm c.entries)
    (hr : Admitted free { c with entries := order } fp expr place out) : Admitted free c fp expr place out := by
  have hsize : ({ c with entries := order } : Cache α).size = c.size := h.length_eq
  refine ⟨hr.found, fun hroom => ?_, fun hfull => ?_⟩
  · obtain ⟨hevicted, hreleased, y, hfp, hentries⟩ := hr.room (hsize ▸ hroom)
    exact ⟨hevicted, hreleased, y, hfp, hentries.trans (h.cons y)⟩
  · obtain ⟨victim, hiff, hevicted, hnone, hsome, y, rest, hfp, hold, hnew⟩ := hr.full (hsize ▸ hfull)
    refine ⟨victim, fun x => ?_, hevicted, hnone, hsome, y, rest, hfp, h.symm.trans hold, hnew⟩
    exact ⟨fun hx => (hiff x).mp (hx.perm h.symm), fun hx => ((hiff x).mpr hx).perm h⟩

end

end Cache

/-! ### What an engine gives up -/

/-- A submission to an engine whose accounts are in order: the entry that has to go takes its region with it, and
nothing else is given up. -/
theorem Engine.Accounted.evicts {s : Engine} (hs : s.Accounted) (e : Expr) :
    ((s.recorded e).evicted? = none → (s.submit e).2.2 = { s with cache := (s.recorded e).cache }) ∧
    ∀ x, (s.recorded e).evicted? = some x →
      ∃ arena, (s.submit e).2.2 = { s with
          cache := (s.recorded e).cache
          arena := arena
          log := s.log.push (.evicted x.fingerprint x.count x.stage.name none) } ∧
        s.arena.live.Perm (x.handle?.toList ++ arena.live) := by
  refine ⟨submit_of_none, fun x hx => ?_⟩
  obtain ⟨arena, hsubmit, hlive, -⟩ := hs.holding.submit_of_some hx
  exact ⟨arena, hsubmit, hlive⟩

namespace Cache

/-- Whatever calls have led to a cache, and in whatever order its entries are gone through: a submission of what is
there removes nothing and changes one entry. A submission of what is not there adds an entry; it removes another one
only from a full cache, the one that goes before all others, whose artifact is released once. In an engine in native
mode, the live regions lose that of the entry which goes and no other, and its release is reported without a failure. -/
theorem record_evicts_least {threshold : UInt64} {capacity : Int} {c : Cache α} (hc : Reachable threshold capacity c)
    {order : List (Entry α)} (horder : order.Perm c.entries) (fp : Fingerprint) (compilable : Bool) (expr : String) :
    (∀ {ρ ε : Type} (free : α → ρ → Option ε × ρ) (place : ρ),
      (∀ x, c.find? fp = some x → Resubmitted c x compilable place
        (({ c with entries := order } : Cache α).submit (noted free) fp compilable expr ([], place))) ∧
      (c.find? fp = none → Admitted free c fp expr place
        (({ c with entries := order } : Cache α).submit (noted free) fp compilable expr ([], place)))) ∧
    ∀ (config : Config) (vars : Bindings) (s t : Engine), Engine.new config vars = .ok s → config.mode = .native →
      Engine.Reaches s t → ∀ e : Expr,
        ((t.recorded e).evicted? = none → (t.submit e).2.2 = { t with cache := (t.recorded e).cache }) ∧
        ∀ x, (t.recorded e).evicted? = some x →
          ∃ arena, (t.submit e).2.2 = { t with
              cache := (t.recorded e).cache
              arena := arena
              log := t.log.push (.evicted x.fingerprint x.count x.stage.name none) } ∧
            t.arena.live.Perm (x.handle?.toList ++ arena.live) := by
  have htidy := hc.tidy.reorder horder
  have hfind := hc.tidy.find?_reorder horder fp
  refine ⟨fun free place => ⟨fun x hx => ?_, fun hnone => ?_⟩, fun config vars s t hnew hmode ht e => ?_⟩
  · exact (htidy.resubmitted (hfind.trans hx) compilable expr).of_reorder horder
  · exact (htidy.admitted (hfind.trans hnone) compilable expr).of_reorder horder
  · obtain ⟨haccounted, -⟩ := Engine.reaches_accounts ht (Engine.new_accounted hnew hmode)
    exact haccounted.evicts e

/-- Two expressions that were submitted twice, with room for no other; the first one is compiled. -/
def levelled : List (Call Nat) :=
  [.record ⟨10⟩ true "x", .record ⟨10⟩ true "x", .install ⟨10⟩ 70, .record ⟨20⟩ true "y", .record ⟨20⟩ true "y"]

/-- The one with the lower fingerprint goes, from whichever end the entries are gone through. Here a release counts. -/
theorem levelled_evicts :
    (history 2 2 levelled 5).find? ⟨30⟩ = none ∧ (history 2 2 levelled 5).capacity ≤ (history 2 2 levelled 5).size ∧
    ∀ order, order.Perm (history 2 2 levelled 5).entries →
      ∃ victim, Yields (history 2 2 levelled 5).entries victim ∧ victim.fingerprint = ⟨10⟩ ∧
        (({ history 2 2 levelled 5 with entries := order } : Cache Nat).record ⟨30⟩ true "z").evicted? = some victim ∧
        (({ history 2 2 levelled 5 with entries := order } : Cache Nat).submit
          (noted fun _ n => ((none : Option Empty), n + 1)) ⟨30⟩ true "z" ([], 0)).2 = (none, [70], 1) := by
  have hnone : (history 2 2 levelled 5).find? ⟨30⟩ = none := by decide
  have hfull : (history 2 2 levelled 5).capacity ≤ (history 2 2 levelled 5).size := by decide
  refine ⟨hnone, hfull, fun order horder => ?_⟩
  obtain ⟨hsubmit, -⟩ := record_evicts_least (reachable_history 2 2 levelled 5) horder ⟨30⟩ true "z"
  obtain ⟨-, habsent⟩ := hsubmit (fun _ n => ((none : Option Empty), n + 1)) 0
  obtain ⟨victim, hiff, hevicted, -, hreleased, -⟩ := (habsent hnone).full hfull
  have hten : Yields (history 2 2 levelled 5).entries ⟨⟨10⟩, "x", 2, .compiled 70⟩ :=
    yields_least? (by decide) (by decide)
  obtain rfl := (hiff _).mp hten
  exact ⟨_, hten, rfl, hevicted, hreleased 70 rfl⟩

end Cache

end TierCalc
