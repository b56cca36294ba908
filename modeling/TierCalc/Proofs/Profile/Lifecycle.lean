import Mathlib.Algebra.Group.Nat.Defs
import Mathlib.Data.List.Nodup
import Mathlib.Logic.Relation
import TierCalc.Proofs.Profile.Cache

/-!
# The life of an entry

Calls to a cache in any order, with any arguments. An entry lives from the submission that finds none with its
fingerprint until it is removed; a later entry with the fingerprint is another one.

* `becomes_of_find?`: what a call makes of an entry. It leaves it alone, counts a submission, installs an artifact or
  sets it aside. Everything about the life of an entry is derived from this.
* `Tidy.after`, `Counts.after`: what holds of a cache after any call, if the counts do not overflow.
* `onward_of_present`: while an entry lives, its count grows and its stage moves on.
* `history_lives`: the same for any calls to a new cache.
-/

namespace TierCalc

variable {α : Type}

/-! ### Stages -/

/-- The moves of an entry on the way to compiled code. -/
inductive Stage.Moves : Stage α → Stage α → Prop where
  | promoted : Moves .cold .attempted
  | setAside : Moves .cold .neverCompile
  | installed (a : α) : Moves .attempted (.compiled a)
  | failed : Moves .attempted .neverCompile

namespace Stage

open Relation

theorem eq_compiled_of_moves {a : α} {s : Stage α} (h : ReflTransGen Moves (.compiled a) s) : s = .compiled a := by
  induction h with
  | refl => rfl
  | tail _ hmove ih =>
      subst ih
      cases hmove

theorem artifact?_eq_some {s : Stage α} {a : α} : s.artifact? = some a ↔ s = .compiled a := by
  cases s <;> simp [artifact?]

end Stage

/-! ### Entries -/

namespace Entry

/-- Whether an entry fits at most `n` submissions: it is cold exactly as long as they do not reach the threshold. -/
structure Counted (threshold : UInt64) (n : Nat) (x : Entry α) : Prop where
  count_le : x.count.toNat ≤ n
  cold_iff : x.stage = .cold ↔ x.count.toNat < threshold.toNat

/-- What the life of an entry makes of it. -/
structure Onward (x y : Entry α) : Prop where
  count : x.count.toNat ≤ y.count.toNat
  stage : Relation.ReflTransGen Stage.Moves x.stage y.stage

variable {threshold : UInt64} {n : Nat} {x y z : Entry α}

theorem Counted.mono (h : x.Counted threshold n) {m : Nat} (hm : n ≤ m) : x.Counted threshold m :=
  ⟨Nat.le_trans h.count_le hm, h.cold_iff⟩

theorem counted_new (hthreshold : 0 < threshold.toNat) (fp : Fingerprint) (expr : String) :
    Counted threshold n (⟨fp, expr, 0, .cold⟩ : Entry α) := by
  refine ⟨?_, ?_⟩
  · simp
  · simpa using hthreshold

theorem Onward.refl (x : Entry α) : Onward x x := ⟨Nat.le_refl _, .refl⟩

theorem Onward.trans (h : Onward x y) (h' : Onward y z) : Onward x z :=
  ⟨Nat.le_trans h.count h'.count, h.stage.trans h'.stage⟩

/-- A submission counts, makes at most one move, and promotes the entry exactly if it brings the count to the threshold
and the expression can be compiled. -/
theorem Counted.submit (hx : x.Counted threshold n) (hn : n + 1 < 2 ^ 64) (compilable : Bool) :
    (x.submit threshold compilable).1.count.toNat = x.count.toNat + 1 ∧
      (x.submit threshold compilable).1.Counted threshold (n + 1) ∧
      ((x.submit threshold compilable).1.stage = x.stage ∨ x.stage.Moves (x.submit threshold compilable).1.stage) ∧
      ((x.submit threshold compilable).2 = true ↔ x.count.toNat + 1 = threshold.toNat ∧ compilable = true) := by
  have hle := hx.count_le
  have hcount : (x.count + 1).toNat = x.count.toNat + 1 := by
    rw [UInt64.toNat_add, UInt64.toNat_one]
    omega
  have hlt : x.count + 1 < threshold ↔ x.count.toNat + 1 < threshold.toNat := by
    rw [UInt64.lt_iff_toNat_lt, hcount]
  have hiff := hx.cold_iff
  by_cases hcold : x.stage = .cold
  · have hbelow := hiff.mp hcold
    rw [Entry.submit_of_cold hcold]
    split_ifs with hnext hcompilable
    · have hnext' := hlt.mp hnext
      refine ⟨hcount, ⟨by simp only [hcount]; omega, ?_⟩, .inl rfl, ?_⟩
      · simp only [hcount, hcold, true_iff]
        exact hnext'
      · simp only [false_iff, not_and]
        omega
    · have hnext' := mt hlt.mpr hnext
      rw [hcold]
      refine ⟨hcount, ⟨by simp only [hcount]; omega, ?_⟩, .inr .promoted, ?_⟩
      · simp only [hcount, reduceCtorEq, false_iff]
        omega
      · simp only [hcompilable, and_true, true_iff]
        omega
    · have hnext' := mt hlt.mpr hnext
      rw [hcold]
      refine ⟨hcount, ⟨by simp only [hcount]; omega, ?_⟩, .inr .setAside, ?_⟩
      · simp only [hcount, reduceCtorEq, false_iff]
        omega
      · simp [hcompilable]
  · have habove := mt hiff.mpr hcold
    rw [Entry.submit_of_ne_cold hcold]
    refine ⟨hcount, ⟨by simp only [hcount]; omega, ?_⟩, .inl rfl, ?_⟩
    · simp only [hcount, hcold, false_iff]
      omega
    · simp only [Bool.false_eq_true, false_iff, not_and]
      omega

end Entry

/-! ### Calls -/

namespace Cache

/-- A call to a cache. -/
inductive Call (α : Type) where
  | record (fp : Fingerprint) (compilable : Bool) (expr : String)
  | install (fp : Fingerprint) (artifact : α)
  | markFailed (fp : Fingerprint)
  | evictIfFull
  | clear

/-- The cache after a call. An installation that is refused changes nothing. -/
def after (c : Cache α) : Call α → Cache α
  | .record fp compilable expr => (c.record fp compilable expr).cache
  | .install fp artifact =>
      match c.install fp artifact with
      | .ok c' => c'
      | .error _ => c
  | .markFailed fp => c.markFailed fp
  | .evictIfFull => c.evictIfFull.2
  | .clear => c.clear.2

/-- The cache after the first `i` of some calls. -/
def reached (c : Cache α) (calls : List (Call α)) (i : Nat) : Cache α := (calls.take i).foldl after c

section
variable {c : Cache α} {calls : List (Call α)} {call : Call α} {i : Nat}

@[simp] theorem reached_zero : c.reached calls 0 = c := rfl

theorem reached_succ (h : calls[i]? = some call) : c.reached calls (i + 1) = (c.reached calls i).after call := by
  rw [reached, List.take_add_one, h, Option.toList_some, List.foldl_append]
  rfl

theorem reached_beyond (h : calls[i]? = none) : c.reached calls (i + 1) = c.reached calls i := by
  rw [reached, List.take_add_one, h, Option.toList_none, List.append_nil]
  rfl

end

/-! ### What a call makes of an entry -/

/-- How the entry of a fingerprint comes about that is there after a call. -/
inductive Becomes (c : Cache α) (fp : Fingerprint) : Call α → Entry α → Prop where
  | kept {call : Call α} {x : Entry α} (h : c.find? fp = some x)
      (hcall : ∀ compilable expr, call ≠ .record fp compilable expr) : Becomes c fp call x
  | counted (compilable : Bool) (expr : String) :
      Becomes c fp (.record fp compilable expr) ((c.entryOf fp expr).submit c.threshold compilable).1
  | installed {x : Entry α} (h : c.find? fp = some x) (hx : x.stage = .attempted) (a : α) :
      Becomes c fp (.install fp a) { x with stage := .compiled a }
  | failed {x : Entry α} (h : c.find? fp = some x) (hx : x.stage = .attempted) :
      Becomes c fp (.markFailed fp) { x with stage := .neverCompile }

section
variable {c : Cache α} {fp : Fingerprint} {call : Call α} {x y : Entry α} {threshold : UInt64} {n : Nat}

theorem becomes_of_install {g : Fingerprint} {a : α} (h : (c.after (.install g a)).find? fp = some y) :
    Becomes c fp (.install g a) y := by
  simp only [after] at h
  split at h
  · rename_i c' hinstall
    by_cases hg : g = fp
    · subst hg
      obtain ⟨x, hx, hstage, rfl⟩ := install_eq_ok hinstall
      rw [find?_put hx] at h
      obtain rfl := Option.some.inj h
      exact .installed hx hstage a
    · rw [find?_of_install hg hinstall] at h
      exact .kept h (by simp)
  · exact .kept h (by simp)

theorem becomes_of_markFailed {g : Fingerprint} (h : (c.after (.markFailed g)).find? fp = some y) :
    Becomes c fp (.markFailed g) y := by
  change (c.markFailed g).find? fp = some y at h
  by_cases hg : g = fp
  · subst hg
    rcases markFailed_eq c g with hsame | ⟨x, hx, hstage, hfailed⟩
    · rw [hsame] at h
      exact .kept h (by simp)
    · rw [hfailed, find?_put hx] at h
      obtain rfl := Option.some.inj h
      exact .failed hx hstage
  · rw [find?_of_markFailed hg] at h
    exact .kept h (by simp)

/-- Every call leaves an entry alone, counts a submission in it, installs its artifact or sets it aside. -/
theorem becomes_of_find? (h : (c.after call).find? fp = some y) : Becomes c fp call y := by
  cases call with
  | record g compilable expr =>
      change (c.record g compilable expr).cache.find? fp = some y at h
      by_cases hg : g = fp
      · subst hg
        rw [(record_self c g compilable expr).1] at h
        obtain rfl := Option.some.inj h
        exact .counted compilable expr
      · refine .kept (find?_of_record hg h) fun b e heq => hg ?_
        cases heq
        rfl
  | install g a => exact becomes_of_install h
  | markFailed g => exact becomes_of_markFailed h
  | evictIfFull => exact .kept (find?_of_evictIfFull h) (by simp)
  | clear => cases h

/-! ### Every call keeps the counts -/

/-- Whether all entries fit at most `n` submissions, and each had one. -/
structure Counts (n : Nat) (c : Cache α) : Prop where
  threshold : 0 < c.threshold.toNat
  entries : ∀ fp x, c.find? fp = some x → x.Counted c.threshold n
  submitted : ∀ fp x, c.find? fp = some x → 1 ≤ x.count.toNat

/-- The entry that a submission counts in fits the submissions so far. -/
theorem Counts.entryOf (hc : Counts n c) (fp : Fingerprint) (expr : String) :
    (c.entryOf fp expr).Counted c.threshold n := by
  unfold Cache.entryOf
  cases h : c.find? fp with
  | none => exact Entry.counted_new hc.threshold fp expr
  | some x => exact hc.entries fp x h

theorem Counts.settle (hc : Counts n c) (h : c.find? fp = some x) (hx : x.stage = .attempted) {stage : Stage α}
    (hstage : stage ≠ .cold) :
    Entry.Counted c.threshold (n + 1) { x with stage := stage } := by
  have hcounted := hc.entries fp x h
  have habove : ¬ x.count.toNat < c.threshold.toNat := by
    intro hlt
    have hcold := hcounted.cold_iff.mpr hlt
    rw [hx] at hcold
    cases hcold
  exact ⟨Nat.le_succ_of_le hcounted.count_le, ⟨fun hcold => absurd hcold hstage, fun hlt => absurd hlt habove⟩⟩

/-- An entry after a call fits the submissions, of which there is one more at most. -/
theorem Counts.becomes (hc : Counts n c) (hn : n + 1 < 2 ^ 64) (h : Becomes c fp call y) :
    y.Counted c.threshold (n + 1) ∧ 1 ≤ y.count.toNat := by
  cases h with
  | kept hx => exact ⟨(hc.entries fp y hx).mono (Nat.le_succ n), hc.submitted fp y hx⟩
  | counted compilable expr =>
      obtain ⟨hcount, hcounted, -, -⟩ := (hc.entryOf fp expr).submit hn compilable
      refine ⟨hcounted, ?_⟩
      omega
  | @installed x hx hstage a => exact ⟨hc.settle hx hstage (by simp), hc.submitted fp x hx⟩
  | @failed x hx hstage => exact ⟨hc.settle hx hstage (by simp), hc.submitted fp x hx⟩

/-- The stage of the entry of a fingerprint. A new entry starts cold. -/
def stageOf (c : Cache α) (fp : Fingerprint) : Stage α := ((c.find? fp).map (·.stage)).getD .cold

theorem stageOf_eq (h : c.find? fp = some x) : c.stageOf fp = x.stage := by
  simp [stageOf, h]

theorem stageOf_entryOf (c : Cache α) (fp : Fingerprint) (expr : String) :
    (c.entryOf fp expr).stage = c.stageOf fp := by
  unfold entryOf stageOf
  cases c.find? fp <;> rfl

theorem Counts.moves (hc : Counts n c) (hn : n + 1 < 2 ^ 64) (h : Becomes c fp call y) :
    y.stage = c.stageOf fp ∨ (c.stageOf fp).Moves y.stage := by
  cases h with
  | kept hx => exact .inl (stageOf_eq hx).symm
  | counted compilable expr =>
      obtain ⟨-, -, hmoves, -⟩ := (hc.entryOf fp expr).submit hn compilable
      rwa [stageOf_entryOf] at hmoves
  | installed hx hstage a =>
      rw [stageOf_eq hx, hstage]
      exact .inr (.installed a)
  | failed hx hstage =>
      rw [stageOf_eq hx, hstage]
      exact .inr .failed

theorem Counts.count_le (hc : Counts n c) (hn : n + 1 < 2 ^ 64) (hx : c.find? fp = some x) (h : Becomes c fp call y) :
    x.count.toNat ≤ y.count.toNat := by
  cases h with
  | kept hy =>
      obtain rfl := Option.some.inj (hx.symm.trans hy)
      exact Nat.le_refl _
  | counted compilable expr =>
      obtain ⟨hcount, -, -, -⟩ := (hc.entryOf fp expr).submit hn compilable
      rw [hcount, Cache.entryOf, hx]
      exact Nat.le_succ _
  | installed hy _ _ =>
      obtain rfl := Option.some.inj (hx.symm.trans hy)
      exact Nat.le_refl _
  | failed hy _ =>
      obtain rfl := Option.some.inj (hx.symm.trans hy)
      exact Nat.le_refl _

/-- What one call makes of an entry that lives through it. -/
theorem Counts.onward (hc : Counts n c) (hn : n + 1 < 2 ^ 64) (hx : c.find? fp = some x) (h : Becomes c fp call y) :
    x.Onward y := by
  refine ⟨hc.count_le hn hx h, ?_⟩
  have hmoves := hc.moves hn h
  rw [stageOf_eq hx] at hmoves
  rcases hmoves with heq | hmove
  · rw [heq]
  · exact .single hmove

/-- A submission is told to compile exactly if it brings the count to the threshold and can be compiled. -/
theorem Counts.promote_iff (hc : Counts n c) (hn : n + 1 < 2 ^ 64) (fp : Fingerprint) (compilable : Bool)
    (expr : String) :
    (c.record fp compilable expr).promote = true ↔
      (c.record fp compilable expr).count.toNat = c.threshold.toNat ∧ compilable = true := by
  obtain ⟨hcount, -, -, hpromote⟩ := (hc.entryOf fp expr).submit hn compilable
  obtain ⟨-, hanswer, hflag⟩ := record_self c fp compilable expr
  rw [hflag, hanswer, hcount]
  exact hpromote

/-! ### Every call keeps the cache in order -/

/-- Whether a cache has one entry for each fingerprint, and no more than it has room for. -/
structure Tidy (c : Cache α) : Prop where
  capacity : 0 < c.capacity
  size : c.entries.length ≤ c.capacity
  distinct : (c.entries.map (·.fingerprint)).Nodup

theorem Tidy.find?_of_mem (hc : Tidy c) (hx : x ∈ c.entries) : c.find? x.fingerprint = some x :=
  Cache.find?_of_mem hc.distinct hx

theorem Tidy.replace (hc : Tidy c) (hx : x ∈ c.entries) (hy : x.fingerprint = y.fingerprint) : Tidy (c.put y) := by
  obtain ⟨rest, hold, hnew⟩ := place_perm hx hc.distinct hy
  refine ⟨hc.capacity, ?_, ?_⟩
  · change (place y c.entries).length ≤ c.capacity
    have hsize := hc.size
    rw [hold.length_eq, List.length_cons] at hsize
    rw [hnew.length_eq, List.length_cons]
    exact hsize
  · change ((place y c.entries).map (·.fingerprint)).Nodup
    have hdistinct := (hold.map (·.fingerprint)).nodup_iff.mp hc.distinct
    rw [(hnew.map (·.fingerprint)).nodup_iff, List.map_cons, ← hy]
    exact hdistinct

theorem room_of_evictIfFull (hc : 0 < c.capacity) (h : c.evictIfFull.1 = none) : c.entries.length < c.capacity := by
  unfold Cache.evictIfFull at h
  split_ifs at h with hroom
  · exact hroom
  · cases hleast : least? c.entries with
    | none =>
        rw [least?_eq_none hleast]
        exact hc
    | some x =>
        rw [hleast] at h
        cases h

/-- After room was made there is room. -/
theorem Tidy.evictIfFull (hc : Tidy c) :
    Tidy c.evictIfFull.2 ∧ c.evictIfFull.2.entries.length < c.evictIfFull.2.capacity := by
  have hperm := evictIfFull_perm hc.distinct
  have hlength := hperm.length_eq
  have hsize := hc.size
  have hcapacity := hc.capacity
  rw [List.length_append] at hlength
  have hless : c.evictIfFull.2.entries.length < c.capacity := by
    cases hevicted : c.evictIfFull.1 with
    | none =>
        have hroom := room_of_evictIfFull hcapacity hevicted
        omega
    | some x =>
        rw [hevicted, Option.toList_some, List.length_singleton] at hlength
        omega
  rw [evictIfFull_capacity]
  refine ⟨⟨by rwa [evictIfFull_capacity], by rw [evictIfFull_capacity]; exact Nat.le_of_lt hless, ?_⟩, hless⟩
  have hdistinct := (hperm.map (·.fingerprint)).nodup_iff.mp hc.distinct
  rw [List.map_append] at hdistinct
  exact (List.nodup_append.mp hdistinct).2.1

theorem Tidy.join (hc : Tidy c) (hroom : c.entries.length < c.capacity) (hy : c.find? y.fingerprint = none) :
    Tidy (c.put y) := by
  have hfresh := find?_eq_none hy
  have hnew := place_new hfresh
  refine ⟨hc.capacity, ?_, ?_⟩
  · change (place y c.entries).length ≤ c.capacity
    rw [hnew.length_eq, List.length_cons]
    exact hroom
  · change ((place y c.entries).map (·.fingerprint)).Nodup
    rw [(hnew.map (·.fingerprint)).nodup_iff, List.map_cons, List.nodup_cons]
    exact ⟨hfresh, hc.distinct⟩

theorem Tidy.record (hc : Tidy c) (fp : Fingerprint) (compilable : Bool) (expr : String) :
    Tidy (c.record fp compilable expr).cache := by
  unfold Cache.record
  cases hfind : c.find? fp with
  | some x =>
      obtain ⟨hx, -⟩ := find?_eq_some hfind
      simp only [Option.isSome_some, if_true, hfind, Option.getD_some]
      exact hc.replace hx (Entry.submit_fingerprint x c.threshold compilable).symm
  | none =>
      obtain ⟨htidy, hroom⟩ := hc.evictIfFull
      have hnone := find?_evictIfFull_of_none hfind
      simp only [Option.isSome_none, Bool.false_eq_true, if_false, hnone, Option.getD_none]
      exact htidy.join hroom (by rwa [Entry.submit_fingerprint])

/-- Every call keeps a cache in order. -/
theorem Tidy.after (hc : Tidy c) (call : Call α) : Tidy (c.after call) := by
  cases call with
  | record fp compilable expr => exact hc.record fp compilable expr
  | install fp a =>
      simp only [Cache.after]
      split
      · rename_i c' hinstall
        obtain ⟨x, hx, -, rfl⟩ := install_eq_ok hinstall
        exact hc.replace (find?_eq_some hx).1 rfl
      · exact hc
  | markFailed fp =>
      change Tidy (c.markFailed fp)
      rcases markFailed_eq c fp with hsame | ⟨x, hx, -, hfailed⟩
      · rw [hsame]
        exact hc
      · rw [hfailed]
        exact hc.replace (find?_eq_some hx).1 rfl
  | evictIfFull => exact hc.evictIfFull.1
  | clear => exact ⟨hc.capacity, Nat.zero_le _, List.nodup_nil⟩

theorem after_threshold (c : Cache α) (call : Call α) : (c.after call).threshold = c.threshold := by
  cases call with
  | record fp compilable expr => exact record_threshold c fp compilable expr
  | install fp a =>
      simp only [after]
      split
      · rename_i c' hinstall
        exact install_threshold hinstall
      · rfl
  | markFailed fp => exact markFailed_threshold c fp
  | evictIfFull => exact evictIfFull_threshold c
  | clear => rfl

theorem after_capacity (c : Cache α) (call : Call α) : (c.after call).capacity = c.capacity := by
  cases call with
  | record fp compilable expr => exact record_capacity c fp compilable expr
  | install fp a =>
      simp only [after]
      split
      · rename_i c' hinstall
        obtain ⟨x, -, -, rfl⟩ := install_eq_ok hinstall
        rfl
      · rfl
  | markFailed fp =>
      change (c.markFailed fp).capacity = c.capacity
      rcases markFailed_eq c fp with hsame | ⟨x, -, -, hfailed⟩
      · rw [hsame]
      · rw [hfailed]
        rfl
  | evictIfFull => exact evictIfFull_capacity c
  | clear => rfl

/-- Every call keeps the counts. -/
theorem Counts.after (hc : Counts n c) (hn : n + 1 < 2 ^ 64) (call : Call α) : Counts (n + 1) (c.after call) := by
  refine ⟨?_, ?_, ?_⟩
  · rw [after_threshold]
    exact hc.threshold
  · intro fp y hy
    rw [after_threshold]
    exact (hc.becomes hn (becomes_of_find? hy)).1
  · intro fp y hy
    exact (hc.becomes hn (becomes_of_find? hy)).2

end

/-! ### Any calls in any order -/

section
variable {c : Cache α} {calls : List (Call α)} {call : Call α} {i j n : Nat} {fp : Fingerprint} {x y : Entry α}

theorem tidy_new (threshold : UInt64) (capacity : Int) : Tidy (Cache.new threshold capacity : Cache α) := by
  refine ⟨?_, Nat.zero_le _, List.nodup_nil⟩
  unfold new
  dsimp only
  split_ifs <;> omega

theorem counts_new (threshold : UInt64) (capacity : Int) : Counts 0 (Cache.new threshold capacity : Cache α) := by
  refine ⟨?_, ?_, ?_⟩
  · rw [threshold_new]
    omega
  · intro fp x hx
    cases hx
  · intro fp x hx
    cases hx

theorem reached_threshold (c : Cache α) (calls : List (Call α)) (i : Nat) :
    (c.reached calls i).threshold = c.threshold := by
  induction i with
  | zero => rfl
  | succ i ih =>
      cases h : calls[i]? with
      | none => rw [reached_beyond h, ih]
      | some call => rw [reached_succ h, after_threshold, ih]

theorem reached_capacity (c : Cache α) (calls : List (Call α)) (i : Nat) :
    (c.reached calls i).capacity = c.capacity := by
  induction i with
  | zero => rfl
  | succ i ih =>
      cases h : calls[i]? with
      | none => rw [reached_beyond h, ih]
      | some call => rw [reached_succ h, after_capacity, ih]

theorem Tidy.reached (hc : Tidy c) (calls : List (Call α)) (i : Nat) : Tidy (c.reached calls i) := by
  induction i with
  | zero => exact hc
  | succ i ih =>
      cases h : calls[i]? with
      | none => rwa [reached_beyond h]
      | some call =>
          rw [reached_succ h]
          exact ih.after call

theorem Counts.reached (hc : Counts 0 c) (hcalls : calls.length < 2 ^ 64) (i : Nat) :
    Counts (min i calls.length) (c.reached calls i) := by
  induction i with
  | zero => simpa using hc
  | succ i ih =>
      cases h : calls[i]? with
      | none =>
          have hbeyond := List.getElem?_eq_none_iff.mp h
          rw [reached_beyond h, Nat.min_eq_right (by omega)]
          rwa [Nat.min_eq_right hbeyond] at ih
      | some call =>
          obtain ⟨hwithin, -⟩ := List.getElem?_eq_some_iff.mp h
          rw [reached_succ h, Nat.min_eq_left hwithin]
          rw [Nat.min_eq_left (Nat.le_of_lt hwithin)] at ih
          exact ih.after (by omega) call

theorem Counts.reached_of_call (hc : Counts 0 c) (hcalls : calls.length < 2 ^ 64) (h : calls[i]? = some call) :
    Counts i (c.reached calls i) ∧ i + 1 < 2 ^ 64 := by
  obtain ⟨hwithin, -⟩ := List.getElem?_eq_some_iff.mp h
  have hreached := hc.reached hcalls i
  rw [Nat.min_eq_left (Nat.le_of_lt hwithin)] at hreached
  exact ⟨hreached, by omega⟩

/-- The stage of an entry changes by one move at a time. -/
theorem reached_moves (hc : Counts 0 c) (hcalls : calls.length < 2 ^ 64)
    (hy : (c.reached calls (i + 1)).find? fp = some y) :
    y.stage = (c.reached calls i).stageOf fp ∨ ((c.reached calls i).stageOf fp).Moves y.stage := by
  cases h : calls[i]? with
  | none =>
      rw [reached_beyond h] at hy
      exact .inl (stageOf_eq hy).symm
  | some call =>
      obtain ⟨hcounts, hn⟩ := hc.reached_of_call hcalls h
      rw [reached_succ h] at hy
      exact hcounts.moves hn (becomes_of_find? hy)

/-- While an entry lives, its count grows and its stage moves on. -/
theorem onward_of_present (hc : Counts 0 c) (hcalls : calls.length < 2 ^ 64) (hij : i ≤ j)
    (hlives : ∀ k, i ≤ k → k ≤ j → (c.reached calls k).find? fp ≠ none)
    (hx : (c.reached calls i).find? fp = some x) (hy : (c.reached calls j).find? fp = some y) : x.Onward y := by
  induction hij generalizing y with
  | refl =>
      obtain rfl := Option.some.inj (hx.symm.trans hy)
      exact .refl x
  | @step j hij ih =>
      obtain ⟨z, hz⟩ := Option.ne_none_iff_exists'.mp (hlives j hij (Nat.le_succ j))
      have honward := ih (fun k hik hkj => hlives k hik (Nat.le_succ_of_le hkj)) hz
      cases h : calls[j]? with
      | none =>
          rw [reached_beyond h, hz] at hy
          obtain rfl := Option.some.inj hy
          exact honward
      | some call =>
          obtain ⟨hcounts, hn⟩ := hc.reached_of_call hcalls h
          rw [reached_succ h] at hy
          exact honward.trans (hcounts.onward hn hz (becomes_of_find? hy))

/-- A submission is told to compile exactly if it brings the count to the threshold and can be compiled. -/
theorem reached_promote_iff (hc : Counts 0 c) (hcalls : calls.length < 2 ^ 64) {compilable : Bool} {expr : String}
    (h : calls[i]? = some (.record fp compilable expr)) :
    ((c.reached calls i).record fp compilable expr).promote = true ↔
      ((c.reached calls i).record fp compilable expr).count.toNat = c.threshold.toNat ∧ compilable = true := by
  obtain ⟨hcounts, hn⟩ := hc.reached_of_call hcalls h
  have hiff := hcounts.promote_iff hn fp compilable expr
  rwa [reached_threshold] at hiff

theorem find?_after_record (c : Cache α) (fp : Fingerprint) (compilable : Bool) (expr : String) :
    ∃ y, (c.after (.record fp compilable expr)).find? fp = some y ∧ y.count = (c.record fp compilable expr).count := by
  obtain ⟨hfind, hcount, -⟩ := record_self c fp compilable expr
  exact ⟨_, hfind, hcount.symm⟩

/-- A submission counts on from the entry that is there. -/
theorem Counts.record_count (hc : Counts n c) (hn : n + 1 < 2 ^ 64) (hx : c.find? fp = some x) (compilable : Bool)
    (expr : String) : (c.record fp compilable expr).count.toNat = x.count.toNat + 1 := by
  obtain ⟨hcount, -, -, -⟩ := (hc.entryOf fp expr).submit hn compilable
  rw [(record_self c fp compilable expr).2.1, hcount, Cache.entryOf, hx, Option.getD_some]

/-- Between two promotions of one fingerprint its entry was removed. -/
theorem removed_of_promote (hc : Counts 0 c) (hcalls : calls.length < 2 ^ 64) (hij : i < j) {b b' : Bool}
    {e e' : String} (hi : calls[i]? = some (.record fp b e)) (hj : calls[j]? = some (.record fp b' e'))
    (hpi : ((c.reached calls i).record fp b e).promote = true)
    (hpj : ((c.reached calls j).record fp b' e').promote = true) :
    ∃ k, i < k ∧ k ≤ j ∧ (c.reached calls k).find? fp = none := by
  by_contra hnone
  have hlives : ∀ k, i + 1 ≤ k → k ≤ j → (c.reached calls k).find? fp ≠ none := by
    intro k hik hkj hk
    exact hnone ⟨k, hik, hkj, hk⟩
  obtain ⟨x, hx, hxcount⟩ := find?_after_record (c.reached calls i) fp b e
  rw [← reached_succ hi] at hx
  obtain ⟨y, hy⟩ := Option.ne_none_iff_exists'.mp (hlives j hij (Nat.le_refl j))
  have hcount := (onward_of_present hc hcalls hij hlives hx hy).count
  have hfirst := ((reached_promote_iff hc hcalls hi).mp hpi).1
  have hsecond := ((reached_promote_iff hc hcalls hj).mp hpj).1
  obtain ⟨hcounts, hn⟩ := hc.reached_of_call hcalls hj
  rw [hcounts.record_count hn hy] at hsecond
  rw [hxcount] at hcount
  omega

theorem artifact?_of_present (hc : Counts 0 c) (hcalls : calls.length < 2 ^ 64) (hij : i ≤ j)
    (hlives : ∀ k, i ≤ k → k ≤ j → (c.reached calls k).find? fp ≠ none) {a : α}
    (hx : (c.reached calls i).find? fp = some x) (ha : x.artifact? = some a)
    (hy : (c.reached calls j).find? fp = some y) : y.artifact? = some a := by
  have hstage := (onward_of_present hc hcalls hij hlives hx hy).stage
  rw [Stage.artifact?_eq_some.mp ha] at hstage
  exact Stage.artifact?_eq_some.mpr (Stage.eq_compiled_of_moves hstage)

end

/-- The cache after the first `i` calls to a new one. -/
def history (threshold : UInt64) (capacity : Int) (calls : List (Call α)) (i : Nat) : Cache α :=
  (Cache.new threshold capacity).reached calls i

/-- What the entries of a cache look like at any time. A threshold or a capacity of zero counts as one. -/
structure Orderly (threshold : UInt64) (capacity : Int) (c : Cache α) : Prop where
  size_le : (c.size : Int) ≤ max capacity 1
  own : ∀ x ∈ c.entries, c.find? x.fingerprint = some x
  submitted : ∀ x ∈ c.entries, 1 ≤ x.count.toNat
  cold_iff : ∀ x ∈ c.entries, x.stage = .cold ↔ x.count.toNat < max threshold.toNat 1
  artifact_iff : ∀ x ∈ c.entries, ∀ a, x.artifact? = some a ↔ x.stage = .compiled a

theorem orderly_history (threshold : UInt64) (capacity : Int) {calls : List (Call α)}
    (hcalls : calls.length < 2 ^ 64) (i : Nat) : Orderly threshold capacity (history threshold capacity calls i) := by
  have htidy := (tidy_new (α := α) threshold capacity).reached calls i
  have hcounts := (counts_new (α := α) threshold capacity).reached hcalls i
  refine ⟨?_, ?_, ?_, ?_, ?_⟩
  · have hsize := htidy.size
    rw [reached_capacity] at hsize
    rw [← capacity_new (α := α) threshold capacity]
    exact Int.ofNat_le.mpr hsize
  · intro x hx
    exact htidy.find?_of_mem hx
  · intro x hx
    exact hcounts.submitted x.fingerprint x (htidy.find?_of_mem hx)
  · intro x hx
    have hiff := (hcounts.entries x.fingerprint x (htidy.find?_of_mem hx)).cold_iff
    rwa [reached_threshold, threshold_new] at hiff
  · intro x _ a
    exact Stage.artifact?_eq_some

/-- Calls in any order leave the cache in order at all times. From one call to the next the entry of a fingerprint,
which starts cold, makes at most one move. A submission is told to compile exactly if it brings the count to the
threshold and the expression can be compiled; that happens once in the life of an entry. An artifact stays while its
entry lives. -/
theorem history_lives (threshold : UInt64) (capacity : Int) (calls : List (Call α))
    (hcalls : calls.length < 2 ^ 64) :
    (∀ i, Orderly threshold capacity (history threshold capacity calls i)) ∧
    (∀ i fp y, (history threshold capacity calls (i + 1)).find? fp = some y →
      y.stage = (history threshold capacity calls i).stageOf fp ∨
        ((history threshold capacity calls i).stageOf fp).Moves y.stage) ∧
    (∀ i fp compilable expr, calls[i]? = some (.record fp compilable expr) →
      (((history threshold capacity calls i).record fp compilable expr).promote = true ↔
        ((history threshold capacity calls i).record fp compilable expr).count.toNat = max threshold.toNat 1 ∧
          compilable = true)) ∧
    (∀ i j fp b b' e e', i < j → calls[i]? = some (.record fp b e) → calls[j]? = some (.record fp b' e') →
      ((history threshold capacity calls i).record fp b e).promote = true →
      ((history threshold capacity calls j).record fp b' e').promote = true →
      ∃ k, i < k ∧ k ≤ j ∧ (history threshold capacity calls k).find? fp = none) ∧
    (∀ i j fp x y a, i ≤ j → (∀ k, i ≤ k → k ≤ j → (history threshold capacity calls k).find? fp ≠ none) →
      (history threshold capacity calls i).find? fp = some x → x.artifact? = some a →
      (history threshold capacity calls j).find? fp = some y → y.artifact? = some a) := by
  have hcounts := counts_new (α := α) threshold capacity
  refine ⟨orderly_history threshold capacity hcalls, ?_, ?_, ?_, ?_⟩
  · intro i fp y hy
    exact reached_moves hcounts hcalls hy
  · intro i fp compilable expr h
    have hiff := reached_promote_iff hcounts hcalls h
    rwa [threshold_new] at hiff
  · intro i j fp b b' e e' hij hi hj hpi hpj
    exact removed_of_promote hcounts hcalls hij hi hj hpi hpj
  · intro i j fp x y a hij hlives hx ha hy
    exact artifact?_of_present hcounts hcalls hij hlives hx ha hy

/-- Two expressions in turn, with room for one: the first is compiled, has to go, and comes back. -/
def displaced : List (Call Nat) :=
  [.record ⟨7⟩ true "x", .record ⟨7⟩ true "x", .install ⟨7⟩ 70, .record ⟨8⟩ true "y", .record ⟨7⟩ true "x",
    .record ⟨7⟩ true "x"]

/-- An expression that comes back is promoted again, since its entry was removed meanwhile. -/
theorem displaced_lives :
    displaced.length < 2 ^ 64 ∧
    ((history 2 1 displaced 1).record ⟨7⟩ true "x").promote = true ∧
    ((history 2 1 displaced 5).record ⟨7⟩ true "x").promote = true ∧
    (∃ k, 1 < k ∧ k ≤ 5 ∧ (history 2 1 displaced k).find? ⟨7⟩ = none) ∧
    ((history 2 1 displaced 3).find? ⟨7⟩).bind (·.artifact?) = some 70 ∧
    ∀ i, Orderly 2 1 (history 2 1 displaced i) := by
  have hcalls : displaced.length < 2 ^ 64 := by decide
  have hfirst : ((history 2 1 displaced 1).record ⟨7⟩ true "x").promote = true := by decide
  have hsecond : ((history 2 1 displaced 5).record ⟨7⟩ true "x").promote = true := by decide
  obtain ⟨horderly, -, -, hremoved, -⟩ := history_lives 2 1 displaced hcalls
  refine ⟨hcalls, hfirst, hsecond, ?_, by decide, horderly⟩
  exact hremoved 1 5 ⟨7⟩ true true "x" "x" (by decide) rfl rfl hfirst hsecond

end Cache

end TierCalc
