import Mathlib.Data.List.Nodup
import Mathlib.Data.List.Perm.Basic
import TierCalc.Profile.Cache

/-!
# What the profile cache does to its entries

A cache holds one entry for each fingerprint, in no particular order, so an operation is described by the entry that it
takes out and the one that it puts in, up to the order of the others.

* `record_cases`: a submission changes the entry of its fingerprint, or adds one, after another has gone if there was
  no room.
* `install_cases`, `markFailed_cases`: only an entry that awaits its artifact changes.
* `record_self`, `find?_of_record`: what a submission does to one entry, its own or another one.
-/

namespace TierCalc

variable {α : Type}

namespace Entry

theorem submit_of_ne_cold {e : Entry α} (h : e.stage ≠ .cold) (threshold : UInt64) (compilable : Bool) :
    e.submit threshold compilable = ({ e with count := e.count + 1 }, false) := by
  unfold submit
  dsimp only
  split
  · contradiction
  · rfl

/-- A cold entry is promoted or set aside when its count reaches the threshold. -/
theorem submit_of_cold {e : Entry α} (h : e.stage = .cold) (threshold : UInt64) (compilable : Bool) :
    e.submit threshold compilable =
      if e.count + 1 < threshold then ({ e with count := e.count + 1 }, false)
      else
        ({ e with count := e.count + 1, stage := if compilable then .attempted else .neverCompile }, compilable) := by
  cases compilable <;> simp only [submit, h, Bool.false_eq_true, if_true, if_false]

/-- A submission counts and may change the stage, but neither gives nor takes an artifact. -/
theorem submit_cases (e : Entry α) (threshold : UInt64) (compilable : Bool) :
    ∃ stage, (e.submit threshold compilable).1 = { e with count := e.count + 1, stage := stage } ∧
      stage.artifact? = e.stage.artifact? := by
  by_cases hcold : e.stage = .cold
  · rw [submit_of_cold hcold]
    split_ifs
    · exact ⟨e.stage, rfl, rfl⟩
    · exact ⟨_, rfl, by rw [hcold]; rfl⟩
    · exact ⟨_, rfl, by rw [hcold]; rfl⟩
  · exact ⟨e.stage, by rw [submit_of_ne_cold hcold], rfl⟩

variable (e : Entry α) (threshold : UInt64) (compilable : Bool)

@[simp] theorem submit_fingerprint : (e.submit threshold compilable).1.fingerprint = e.fingerprint := by
  obtain ⟨stage, h, -⟩ := submit_cases e threshold compilable
  rw [h]

@[simp] theorem submit_expr : (e.submit threshold compilable).1.expr = e.expr := by
  obtain ⟨stage, h, -⟩ := submit_cases e threshold compilable
  rw [h]

@[simp] theorem submit_count : (e.submit threshold compilable).1.count = e.count + 1 := by
  obtain ⟨stage, h, -⟩ := submit_cases e threshold compilable
  rw [h]

@[simp] theorem submit_artifact? : (e.submit threshold compilable).1.artifact? = e.artifact? := by
  obtain ⟨stage, h, hart⟩ := submit_cases e threshold compilable
  rw [h]
  exact hart

end Entry

namespace Cache

/-! ### Lists of entries -/

section
variable {l : List (Entry α)} {x : Entry α}

/-- An entry that is put in takes the place of the one with its fingerprint. -/
theorem place_perm (hx : x ∈ l) (hl : (l.map (·.fingerprint)).Nodup) {e : Entry α}
    (he : x.fingerprint = e.fingerprint) : ∃ rest, l.Perm (x :: rest) ∧ (place e l).Perm (e :: rest) := by
  induction l with
  | nil => cases hx
  | cons y l ih =>
      rw [List.map_cons, List.nodup_cons] at hl
      rcases List.mem_cons.mp hx with rfl | hx
      · exact ⟨l, .rfl, by rw [place, if_pos he]⟩
      · obtain ⟨rest, hold, hnew⟩ := ih hx hl.2
        have hne : y.fingerprint ≠ e.fingerprint := fun h =>
          hl.1 (List.mem_map.mpr ⟨x, hx, he.trans h.symm⟩)
        refine ⟨y :: rest, (hold.cons y).trans (.swap x y rest), ?_⟩
        rw [place, if_neg hne]
        exact (hnew.cons y).trans (.swap e y rest)

theorem place_new {e : Entry α} (he : e.fingerprint ∉ l.map (·.fingerprint)) : (place e l).Perm (e :: l) := by
  induction l with
  | nil => exact .rfl
  | cons y l ih =>
      rw [List.map_cons, List.mem_cons, not_or] at he
      rw [place, if_neg (Ne.symm he.1)]
      exact ((ih he.2).cons y).trans (.swap e y l)

theorem least?_mem (h : least? l = some x) : x ∈ l := by
  induction l generalizing x with
  | nil => cases h
  | cons y l ih =>
      rw [least?] at h
      cases hm : least? l with
      | none =>
          rw [hm] at h
          obtain rfl := Option.some.inj h
          exact List.mem_cons_self
      | some m =>
          rw [hm] at h
          obtain rfl := Option.some.inj h
          split_ifs
          · exact List.mem_cons_of_mem y (ih hm)
          · exact List.mem_cons_self

theorem least?_eq_none (h : least? l = none) : l = [] := by
  cases l with
  | nil => rfl
  | cons y l =>
      rw [least?] at h
      cases hm : least? l with
      | none =>
          rw [hm] at h
          cases h
      | some m =>
          rw [hm] at h
          cases h

/-- To remove the entries with a fingerprint is to remove one. -/
theorem perm_cons_filter (hx : x ∈ l) (hl : (l.map (·.fingerprint)).Nodup) :
    l.Perm (x :: l.filter (·.fingerprint != x.fingerprint)) := by
  induction l with
  | nil => cases hx
  | cons y l ih =>
      rw [List.map_cons, List.nodup_cons] at hl
      rcases List.mem_cons.mp hx with rfl | hx
      · have hall : ∀ z ∈ l, (z.fingerprint != x.fingerprint) = true := fun z hz =>
          bne_iff_ne.mpr fun h => hl.1 (List.mem_map.mpr ⟨z, hz, h⟩)
        rw [List.filter_cons_of_neg (by simp), List.filter_eq_self.mpr hall]
      · have hne : (y.fingerprint != x.fingerprint) = true :=
          bne_iff_ne.mpr fun h => hl.1 (List.mem_map.mpr ⟨x, hx, h.symm⟩)
        rw [List.filter_cons, if_pos hne]
        exact ((ih hx hl.2).cons y).trans (.swap x y _)

end

/-! ### Operations -/

section
variable {c : Cache α} {fp : Fingerprint}

theorem find?_eq_some {x : Entry α} (h : c.find? fp = some x) : x ∈ c.entries ∧ x.fingerprint = fp :=
  ⟨List.mem_of_find?_eq_some h, by simpa using List.find?_some h⟩

theorem find?_eq_none (h : c.find? fp = none) : fp ∉ c.entries.map (·.fingerprint) := by
  intro hmem
  obtain ⟨x, hx, hfp⟩ := List.mem_map.mp hmem
  exact absurd (List.find?_eq_none.mp h x hx) (by simp [hfp])

theorem find?_of_mem (hc : (c.entries.map (·.fingerprint)).Nodup) {x : Entry α} (hx : x ∈ c.entries) :
    c.find? x.fingerprint = some x := by
  cases h : c.find? x.fingerprint with
  | none => exact absurd (List.mem_map_of_mem hx) (find?_eq_none h)
  | some y =>
      obtain ⟨hy, hfp⟩ := find?_eq_some h
      rw [List.inj_on_of_nodup_map hc hy hx hfp]

/-- Whoever makes room goes out of the cache, and nobody else. -/
theorem evictIfFull_perm (hc : (c.entries.map (·.fingerprint)).Nodup) :
    c.entries.Perm (c.evictIfFull.1.toList ++ c.evictIfFull.2.entries) := by
  unfold evictIfFull
  split_ifs
  · exact .rfl
  · cases h : least? c.entries with
    | none => exact .rfl
    | some x => exact perm_cons_filter (least?_mem h) hc

/-- A submission changes the entry of its fingerprint or adds one. -/
theorem record_cases (hc : (c.entries.map (·.fingerprint)).Nodup) (fp : Fingerprint) (compilable : Bool)
    (expr : String) :
    ∃ y rest, (c.record fp compilable expr).cache.entries.Perm (y :: rest) ∧ y.fingerprint = fp ∧
      ((∃ x, c.entries.Perm (x :: rest) ∧ x.fingerprint = fp ∧ y.expr = x.expr ∧ y.artifact? = x.artifact? ∧
          (c.record fp compilable expr).evicted? = none) ∨
        fp ∉ rest.map (·.fingerprint) ∧ y.expr = expr ∧ y.artifact? = none ∧
          c.entries.Perm ((c.record fp compilable expr).evicted?.toList ++ rest)) := by
  cases hfind : c.find? fp with
  | some x =>
      obtain ⟨hx, hfp⟩ := find?_eq_some hfind
      obtain ⟨rest, hold, hnew⟩ := place_perm hx hc (Entry.submit_fingerprint x c.threshold compilable).symm
      refine ⟨(x.submit c.threshold compilable).1, rest, ?_, by simp [hfp], .inl ⟨x, hold, hfp, by simp, by simp, ?_⟩⟩
      · simp only [record, hfind, Option.isSome_some, if_true, Option.getD_some, put]
        exact hnew
      · simp only [record, hfind, Option.isSome_some, if_true]
  | none =>
      have hperm := evictIfFull_perm hc
      have hnew : fp ∉ c.evictIfFull.2.entries.map (·.fingerprint) := by
        intro h
        refine find?_eq_none hfind ((hperm.map _).mem_iff.mpr ?_)
        rw [List.map_append]
        exact List.mem_append_right _ h
      have hnone : c.evictIfFull.2.find? fp = none := by
        refine List.find?_eq_none.mpr fun x hx h => hnew ?_
        exact List.mem_map.mpr ⟨x, hx, by simpa using h⟩
      refine ⟨(Entry.submit ⟨fp, expr, 0, .cold⟩ c.evictIfFull.2.threshold compilable).1, c.evictIfFull.2.entries,
        ?_, by simp, .inr ⟨hnew, by simp, Entry.submit_artifact? _ _ _, ?_⟩⟩
      · simp only [record, hfind, Option.isSome_none, Bool.false_eq_true, if_false, hnone, Option.getD_none, put]
        exact place_new (by simpa using hnew)
      · simp only [record, hfind, Option.isSome_none, Bool.false_eq_true, if_false]
        exact hperm

theorem install_eq_ok {a : α} {c' : Cache α} (h : c.install fp a = .ok c') :
    ∃ x, c.find? fp = some x ∧ x.stage = .attempted ∧ c' = c.put { x with stage := .compiled a } := by
  unfold install at h
  split at h
  · cases h
  · rename_i x hx
    split at h
    · rename_i hstage
      exact ⟨x, hx, hstage, (Except.ok.inj h).symm⟩
    · cases h

theorem markFailed_eq (c : Cache α) (fp : Fingerprint) :
    c.markFailed fp = c ∨ ∃ x, c.find? fp = some x ∧ x.stage = .attempted ∧
      c.markFailed fp = c.put { x with stage := .neverCompile } := by
  unfold markFailed
  split
  · exact .inl rfl
  · rename_i x hx
    split
    · rename_i hstage
      exact .inr ⟨x, hx, hstage, rfl⟩
    · exact .inl rfl

theorem install_cases (hc : (c.entries.map (·.fingerprint)).Nodup) {a : α} {c' : Cache α}
    (h : c.install fp a = .ok c') :
    ∃ x rest, c.entries.Perm (x :: rest) ∧ x.fingerprint = fp ∧
      c'.entries.Perm ({ x with stage := .compiled a } :: rest) := by
  obtain ⟨x, hx, -, rfl⟩ := install_eq_ok h
  obtain ⟨hmem, hfp⟩ := find?_eq_some hx
  obtain ⟨rest, hold, hnew⟩ := place_perm hmem hc (e := { x with stage := .compiled a }) rfl
  exact ⟨x, rest, hold, hfp, hnew⟩

theorem markFailed_cases (hc : (c.entries.map (·.fingerprint)).Nodup) (fp : Fingerprint) :
    c.markFailed fp = c ∨ ∃ x rest, c.entries.Perm (x :: rest) ∧ x.artifact? = none ∧
      (c.markFailed fp).entries.Perm ({ x with stage := .neverCompile } :: rest) := by
  rcases markFailed_eq c fp with hsame | ⟨x, hx, hstage, hfailed⟩
  · exact .inl hsame
  · obtain ⟨rest, hold, hnew⟩ := place_perm (find?_eq_some hx).1 hc (e := { x with stage := .neverCompile }) rfl
    refine .inr ⟨x, rest, hold, by rw [Entry.artifact?, hstage]; rfl, ?_⟩
    rw [hfailed]
    exact hnew

end

/-! ### Entries by fingerprint -/

section
variable {c : Cache α} {fp g : Fingerprint} {x e : Entry α}

theorem find?_place_self (e : Entry α) (l : List (Entry α)) :
    (place e l).find? (·.fingerprint == e.fingerprint) = some e := by
  induction l with
  | nil => simp [place]
  | cons y l ih =>
      by_cases h : y.fingerprint = e.fingerprint
      · simp [place, h]
      · simp [place, h, ih]

theorem find?_place_of_ne (h : e.fingerprint ≠ fp) (l : List (Entry α)) :
    (place e l).find? (·.fingerprint == fp) = l.find? (·.fingerprint == fp) := by
  induction l with
  | nil => simp [place, h]
  | cons y l ih =>
      by_cases hy : y.fingerprint = e.fingerprint
      · simp [place, hy, h]
      · rw [place, if_neg hy, List.find?_cons, List.find?_cons, ih]

theorem find?_put_self (c : Cache α) (e : Entry α) : (c.put e).find? e.fingerprint = some e :=
  find?_place_self e c.entries

theorem find?_put_of_ne (h : e.fingerprint ≠ fp) (c : Cache α) : (c.put e).find? fp = c.find? fp :=
  find?_place_of_ne h c.entries

theorem find?_put (h : c.find? fp = some x) (stage : Stage α) :
    (c.put { x with stage := stage }).find? fp = some { x with stage := stage } := by
  rw [← (find?_eq_some h).2]
  exact find?_put_self c { x with stage := stage }

theorem find?_put_other (h : c.find? g = some x) (hne : g ≠ fp) (stage : Stage α) :
    (c.put { x with stage := stage }).find? fp = c.find? fp := by
  apply find?_put_of_ne
  rw [(find?_eq_some h).2]
  exact hne

theorem find?_of_evictIfFull (h : c.evictIfFull.2.find? fp = some x) : c.find? fp = some x := by
  unfold evictIfFull at h
  split_ifs at h
  · exact h
  · cases hl : least? c.entries with
    | none =>
        rw [hl] at h
        exact h
    | some y =>
        rw [hl] at h
        obtain ⟨hmem, hfp⟩ := find?_eq_some h
        have hne : fp ≠ y.fingerprint := by
          rw [← hfp]
          exact bne_iff_ne.mp (List.mem_filter.mp hmem).2
        have hsame : (fun z : Entry α =>
            decide ((z.fingerprint != y.fingerprint) = true ∧ (z.fingerprint == fp) = true))
              = fun z => z.fingerprint == fp := by
          funext z
          by_cases hz : z.fingerprint = fp
          · simp [hz, hne]
          · simp [hz]
        rwa [find?, List.find?_filter, hsame] at h

theorem find?_evictIfFull_of_none (h : c.find? fp = none) : c.evictIfFull.2.find? fp = none := by
  cases hx : c.evictIfFull.2.find? fp with
  | none => rfl
  | some x =>
      rw [find?_of_evictIfFull hx] at h
      cases h

theorem evictIfFull_threshold (c : Cache α) : c.evictIfFull.2.threshold = c.threshold := by
  unfold evictIfFull
  split_ifs
  · rfl
  · cases least? c.entries <;> rfl

theorem record_threshold (c : Cache α) (fp : Fingerprint) (compilable : Bool) (expr : String) :
    (c.record fp compilable expr).cache.threshold = c.threshold := by
  unfold record
  split_ifs
  · rfl
  · exact evictIfFull_threshold c

theorem evictIfFull_capacity (c : Cache α) : c.evictIfFull.2.capacity = c.capacity := by
  unfold evictIfFull
  split_ifs
  · rfl
  · cases least? c.entries <;> rfl

theorem record_capacity (c : Cache α) (fp : Fingerprint) (compilable : Bool) (expr : String) :
    (c.record fp compilable expr).cache.capacity = c.capacity := by
  unfold record
  split_ifs
  · rfl
  · exact evictIfFull_capacity c

theorem install_threshold {a : α} {c' : Cache α} (h : c.install fp a = .ok c') : c'.threshold = c.threshold := by
  obtain ⟨x, -, -, rfl⟩ := install_eq_ok h
  rfl

theorem markFailed_threshold (c : Cache α) (fp : Fingerprint) : (c.markFailed fp).threshold = c.threshold := by
  rcases markFailed_eq c fp with hsame | ⟨x, -, -, hfailed⟩
  · rw [hsame]
  · rw [hfailed]
    rfl

/-- The entry that a submission counts in, as it is before. -/
def entryOf (c : Cache α) (fp : Fingerprint) (expr : String) : Entry α := (c.find? fp).getD ⟨fp, expr, 0, .cold⟩

/-- A submission counts in the entry of its fingerprint, or in a new one. -/
theorem record_self (c : Cache α) (fp : Fingerprint) (compilable : Bool) (expr : String) :
    (c.record fp compilable expr).cache.find? fp = some ((c.entryOf fp expr).submit c.threshold compilable).1 ∧
      (c.record fp compilable expr).count = ((c.entryOf fp expr).submit c.threshold compilable).1.count ∧
      (c.record fp compilable expr).promote = ((c.entryOf fp expr).submit c.threshold compilable).2 := by
  unfold entryOf
  cases hfind : c.find? fp with
  | some x =>
      obtain ⟨-, hfp⟩ := find?_eq_some hfind
      have hput := find?_put_self c (x.submit c.threshold compilable).1
      rw [Entry.submit_fingerprint, hfp] at hput
      simp only [record, hfind, Option.isSome_some, if_true, Option.getD_some, hput, and_self]
  | none =>
      have hnone := find?_evictIfFull_of_none hfind
      have hput := find?_put_self c.evictIfFull.2 (Entry.submit ⟨fp, expr, 0, .cold⟩ c.threshold compilable).1
      rw [Entry.submit_fingerprint] at hput
      simp only [record, hfind, Option.isSome_none, Bool.false_eq_true, if_false, hnone, Option.getD_none,
        evictIfFull_threshold, hput, and_self]

/-- An entry that is still there after a submission of another fingerprint is as it was. -/
theorem find?_of_record (h : g ≠ fp) {compilable : Bool} {expr : String}
    (hx : (c.record g compilable expr).cache.find? fp = some x) : c.find? fp = some x := by
  unfold record at hx
  split_ifs at hx with hg
  · obtain ⟨y, hy⟩ := Option.isSome_iff_exists.mp hg
    obtain ⟨-, hyfp⟩ := find?_eq_some hy
    simp only [hy, Option.getD_some] at hx
    rwa [find?_put_of_ne (by rw [Entry.submit_fingerprint, hyfp]; exact h)] at hx
  · have hfp : ((c.evictIfFull.2.find? g).getD ⟨g, expr, 0, .cold⟩).fingerprint = g := by
      cases hy : c.evictIfFull.2.find? g with
      | none => rfl
      | some y => exact (find?_eq_some hy).2
    dsimp only at hx
    rw [find?_put_of_ne (by rw [Entry.submit_fingerprint, hfp]; exact h)] at hx
    exact find?_of_evictIfFull hx

theorem install_attempted (h : c.find? fp = some x) (hx : x.stage = .attempted) (a : α) :
    c.install fp a = .ok (c.put { x with stage := .compiled a }) := by
  simp only [install, h, hx]

theorem find?_of_install (h : g ≠ fp) {a : α} {c' : Cache α} (hc : c.install g a = .ok c') :
    c'.find? fp = c.find? fp := by
  obtain ⟨y, hy, -, rfl⟩ := install_eq_ok hc
  exact find?_put_of_ne (by rw [(find?_eq_some hy).2]; exact h) c

theorem find?_of_markFailed (h : g ≠ fp) : (c.markFailed g).find? fp = c.find? fp := by
  rcases markFailed_eq c g with hsame | ⟨y, hy, -, hfailed⟩
  · rw [hsame]
  · rw [hfailed]
    exact find?_put_of_ne (by rw [(find?_eq_some hy).2]; exact h) c

theorem markFailed_attempted (h : c.find? fp = some x) (hx : x.stage = .attempted) :
    c.markFailed fp = c.put { x with stage := .neverCompile } := by
  simp only [markFailed, h, hx]

theorem threshold_new (threshold : UInt64) (capacity : Int) :
    (Cache.new threshold capacity : Cache α).threshold.toNat = max threshold.toNat 1 := by
  unfold new
  dsimp only
  split_ifs with h
  · rw [UInt64.lt_iff_toNat_lt, UInt64.toNat_one] at h
    rw [UInt64.toNat_one]
    omega
  · rw [UInt64.lt_iff_toNat_lt, UInt64.toNat_one] at h
    omega

theorem capacity_new (threshold : UInt64) (capacity : Int) :
    ((Cache.new threshold capacity : Cache α).capacity : Int) = max capacity 1 := by
  unfold new
  dsimp only
  split_ifs <;> omega

end

end Cache

end TierCalc
