import Mathlib.Algebra.Ring.Nat
import TierCalc.Proofs.Profile.Cache

/-!
# The submissions that a cache has counted

Every submission is counted in one entry. The counts leave the cache only with an entry that makes room, so the counts
of all entries, with those of the entries that went, are the submissions (`total_record`). Every entry that was added is
still there or has made room (`size_record`).
-/

namespace TierCalc

variable {α : Type}

theorem toNat_succ {n : UInt64} (h : n.toNat + 1 < 2 ^ 64) : (n + 1).toNat = n.toNat + 1 := by
  rw [UInt64.toNat_add, UInt64.toNat_one]
  omega

namespace Cache

/-- The submissions that the entries have counted. -/
def total (c : Cache α) : Nat := (c.entries.map (·.count.toNat)).sum

section
variable {c : Cache α} {fp : Fingerprint} {x y : Entry α}

theorem total_of_perm {l : List (Entry α)} (h : c.entries.Perm l) : c.total = (l.map (·.count.toNat)).sum :=
  (h.map _).sum_nat

/-! ### Replacing an entry -/

theorem map_put {β : Type} (g : Entry α → β) (hx : c.find? fp = some x) (hy : y.fingerprint = fp) (hg : g y = g x) :
    (c.put y).entries.map g = c.entries.map g := by
  have hplace (l : List (Entry α)) (hl : l.find? (·.fingerprint == fp) = some x) : (place y l).map g = l.map g := by
    induction l with
    | nil => cases hl
    | cons z l ih =>
        by_cases hz : z.fingerprint = fp
        · rw [List.find?_cons_of_pos (by simpa using hz)] at hl
          obtain rfl := Option.some.inj hl
          rw [place, if_pos (hz.trans hy.symm), List.map_cons, List.map_cons, hg]
        · rw [List.find?_cons_of_neg (by simpa using hz)] at hl
          rw [place, if_neg (hy ▸ hz), List.map_cons, List.map_cons, ih hl]
  exact hplace c.entries hx

theorem total_put (hx : c.find? fp = some x) (stage : Stage α) : (c.put { x with stage := stage }).total = c.total :=
  congrArg List.sum (map_put _ hx (find?_eq_some hx).2 rfl)

theorem size_put (hx : c.find? fp = some x) (stage : Stage α) : (c.put { x with stage := stage }).size = c.size := by
  have hlength := congrArg List.length
    (map_put (fun _ => ()) hx (y := { x with stage := stage }) (find?_eq_some hx).2 rfl)
  rwa [List.length_map, List.length_map] at hlength

/-! ### Submissions -/

theorem record_of_some (hx : c.find? fp = some x) (compilable : Bool) (expr : String) :
    c.record fp compilable expr =
      ⟨(x.submit c.threshold compilable).1.count, (x.submit c.threshold compilable).2, none,
        c.put (x.submit c.threshold compilable).1⟩ := by
  simp only [record, hx, Option.isSome_some, if_true, Option.getD_some]

/-- A submission that finds no entry makes room for one, if there is none, and adds it. -/
theorem record_of_none (h : c.find? fp = none) (compilable : Bool) (expr : String) :
    c.record fp compilable expr =
      ⟨(Entry.submit (⟨fp, expr, 0, .cold⟩ : Entry α) c.threshold compilable).1.count,
        (Entry.submit (⟨fp, expr, 0, .cold⟩ : Entry α) c.threshold compilable).2, c.evictIfFull.1,
        c.evictIfFull.2.put (Entry.submit ⟨fp, expr, 0, .cold⟩ c.threshold compilable).1⟩ := by
  simp only [record, h, Option.isSome_none, Bool.false_eq_true, if_false, find?_evictIfFull_of_none h, Option.getD_none,
    evictIfFull_threshold]

/-- The entry of a submission is put beside those that were there and did not make room. -/
theorem record_of_none_perm (hc : (c.entries.map (·.fingerprint)).Nodup) (h : c.find? fp = none) (compilable : Bool)
    (expr : String) :
    ∃ y rest, y.count = 1 ∧ (c.record fp compilable expr).cache.entries.Perm (y :: rest) ∧
      c.entries.Perm ((c.record fp compilable expr).evicted?.toList ++ rest) := by
  have hnew : fp ∉ c.evictIfFull.2.entries.map (·.fingerprint) := find?_eq_none (find?_evictIfFull_of_none h)
  rw [record_of_none h]
  exact ⟨_, _, Entry.submit_count _ _ _, place_new (by simpa using hnew), evictIfFull_perm hc⟩

/-- Every submission is counted: in an entry, or in one that has made room. -/
theorem total_record (hc : (c.entries.map (·.fingerprint)).Nodup) (hroom : c.total + 1 < 2 ^ 64) (fp : Fingerprint)
    (compilable : Bool) (expr : String) :
    (c.record fp compilable expr).cache.total + ((c.record fp compilable expr).evicted?.map (·.count.toNat)).getD 0
      = c.total + 1 := by
  cases hfind : c.find? fp with
  | some x =>
      obtain ⟨rest, hold, hnew⟩ :=
        place_perm (find?_eq_some hfind).1 hc (Entry.submit_fingerprint x c.threshold compilable).symm
      have htotal := total_of_perm hold
      rw [List.map_cons, List.sum_cons] at htotal
      rw [record_of_some hfind]
      dsimp only
      rw [total_of_perm hnew, List.map_cons, List.sum_cons, Entry.submit_count, toNat_succ (by omega), Option.map_none,
        Option.getD_none]
      omega
  | none =>
      obtain ⟨y, rest, hy, hnew, hold⟩ := record_of_none_perm hc hfind compilable expr
      have htotal := total_of_perm hold
      rw [total_of_perm hnew, List.map_cons, List.sum_cons, hy, UInt64.toNat_one]
      cases hevicted : (c.record fp compilable expr).evicted? with
      | none =>
          simp only [hevicted, Option.toList_none, List.nil_append] at htotal
          simp only [Option.map_none, Option.getD_none]
          omega
      | some old =>
          simp only [hevicted, Option.toList_some, List.singleton_append, List.map_cons, List.sum_cons] at htotal
          simp only [Option.map_some, Option.getD_some]
          omega

theorem evictIfFull_cases (c : Cache α) :
    c.evictIfFull = (none, c) ∨
      ∃ x l, c.evictIfFull = (some x, { c with entries := l, evictions := c.evictions + 1 }) := by
  unfold evictIfFull
  split
  · exact .inl rfl
  · cases least? c.entries with
    | none => exact .inl rfl
    | some x => exact .inr ⟨x, _, rfl⟩

/-- Every entry that was added is there, or has made room. -/
theorem size_record (hc : (c.entries.map (·.fingerprint)).Nodup) (hroom : c.evictions.toNat + 1 < 2 ^ 64)
    (fp : Fingerprint) (compilable : Bool) (expr : String) :
    (c.record fp compilable expr).cache.evictions.toNat + (c.record fp compilable expr).cache.size
      = c.evictions.toNat + c.size + if (c.find? fp).isNone then 1 else 0 := by
  cases hfind : c.find? fp with
  | some x =>
      obtain ⟨rest, hold, hnew⟩ :=
        place_perm (find?_eq_some hfind).1 hc (Entry.submit_fingerprint x c.threshold compilable).symm
      have hsize : (c.put (x.submit c.threshold compilable).1).size = c.size := hnew.length_eq.trans hold.length_eq.symm
      rw [record_of_some hfind]
      dsimp only
      rw [hsize]
      rfl
  | none =>
      obtain ⟨y, rest, -, hnew, hold⟩ := record_of_none_perm hc hfind compilable expr
      have hsize : (c.record fp compilable expr).cache.size = rest.length + 1 := hnew.length_eq
      have hbefore : c.size = _ := hold.length_eq
      rw [hsize, hbefore, record_of_none hfind]
      rcases evictIfFull_cases c with hout | ⟨x, l, hout⟩
      · rw [hout]
        simp only [put, Option.toList_none, List.nil_append, Option.isNone_none, if_true]
        omega
      · rw [hout]
        simp only [put, toNat_succ hroom, Option.toList_some, List.length_append, List.length_singleton,
          Option.isNone_none, if_true]
        omega

end

end Cache

end TierCalc
