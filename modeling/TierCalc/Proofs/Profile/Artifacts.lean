import TierCalc.Proofs.Profile.Counting

/-!
# The profile does not look at artifacts

A cache may hold artifacts of any type. Whatever is put in the place of each artifact, every operation of the cache does
the same: it counts and promotes, makes room and ranks the entries as it would have (`record_map`, `settle_map`,
`ranking_map`).
-/

namespace TierCalc

variable {α β : Type} (f : α → β)

/-- The stage with another artifact. -/
def Stage.map : Stage α → Stage β
  | cold => .cold
  | attempted => .attempted
  | compiled a => .compiled (f a)
  | neverCompile => .neverCompile

theorem Stage.artifact?_map (s : Stage α) : (s.map f).artifact? = s.artifact?.map f := by
  cases s <;> rfl

namespace Entry

def map (x : Entry α) : Entry β := ⟨x.fingerprint, x.expr, x.count, x.stage.map f⟩

theorem artifact?_map (x : Entry α) : (x.map f).artifact? = x.artifact?.map f := x.stage.artifact?_map f

theorem map_map {γ : Type} (g : β → γ) (x : Entry α) : (x.map f).map g = x.map (g ∘ f) := by
  obtain ⟨fp, expr, count, stage⟩ := x
  cases stage <;> rfl

theorem submit_map (x : Entry α) (threshold : UInt64) (compilable : Bool) :
    (x.map f).submit threshold compilable =
      ((x.submit threshold compilable).1.map f, (x.submit threshold compilable).2) := by
  obtain ⟨fp, expr, count, stage⟩ := x
  cases stage with
  | cold =>
      by_cases hlt : count + 1 < threshold
      · simp [submit, map, Stage.map, hlt]
      · cases compilable <;> simp [submit, map, Stage.map, hlt]
  | _ => rfl

end Entry

/-- The cache with other artifacts. -/
def Cache.map (c : Cache α) : Cache β := ⟨c.threshold, c.capacity, c.entries.map (Entry.map f), c.evictions⟩

/-- The answer to a submission, with other artifacts. -/
def Submission.map (r : Submission α) : Submission β :=
  ⟨r.count, r.promote, r.evicted?.map (Entry.map f), r.cache.map f⟩

namespace Cache

variable (c : Cache α)

theorem size_map : (c.map f).size = c.size := List.length_map _

theorem find?_map (fp : Fingerprint) : (c.map f).find? fp = (c.find? fp).map (Entry.map f) := by
  rw [find?, find?, map, List.find?_map]
  rfl

theorem place_map (x : Entry α) (l : List (Entry α)) :
    place (x.map f) (l.map (Entry.map f)) = (place x l).map (Entry.map f) := by
  induction l with
  | nil => rfl
  | cons y l ih =>
      rw [List.map_cons, place, place, ih]
      change (if y.fingerprint = x.fingerprint then _ else _) = _
      split_ifs <;> rfl

theorem put_map (x : Entry α) : (c.map f).put (x.map f) = (c.put x).map f := by
  rw [put, put, map, map, place_map]

theorem least?_map (l : List (Entry α)) : least? (l.map (Entry.map f)) = (least? l).map (Entry.map f) := by
  induction l with
  | nil => rfl
  | cons x l ih =>
      rw [List.map_cons, least?, least?, ih]
      cases least? l with
      | none => rfl
      | some m =>
          change some (if m.yieldsBefore x then m.map f else x.map f)
            = some (Entry.map f (if m.yieldsBefore x then m else x))
          split_ifs <;> rfl

theorem evictIfFull_map : (c.map f).evictIfFull = (c.evictIfFull.1.map (Entry.map f), c.evictIfFull.2.map f) := by
  unfold evictIfFull
  by_cases hroom : c.size < c.capacity
  · rw [if_pos hroom, if_pos (by rwa [size_map])]
    rfl
  · rw [if_neg hroom, if_neg (by rwa [size_map])]
    have hleast : least? (c.map f).entries = (least? c.entries).map (Entry.map f) := least?_map f c.entries
    rw [hleast]
    cases least? c.entries with
    | none => rfl
    | some x =>
        have hfilter : (c.entries.map (Entry.map f)).filter (·.fingerprint != x.fingerprint)
            = (c.entries.filter (·.fingerprint != x.fingerprint)).map (Entry.map f) := by
          rw [List.filter_map]
          rfl
        simp only [Option.map_some, map, Entry.map] at hfilter ⊢
        rw [hfilter]

/-- A submission is counted and promoted, whatever the artifacts. -/
theorem record_map (fp : Fingerprint) (compilable : Bool) (expr : String) :
    (c.map f).record fp compilable expr = (c.record fp compilable expr).map f := by
  have hmapped := find?_map f c fp
  cases hfind : c.find? fp with
  | some x =>
      rw [hfind, Option.map_some] at hmapped
      rw [record_of_some hfind, record_of_some hmapped, Entry.submit_map, put_map]
      rfl
  | none =>
      rw [hfind, Option.map_none] at hmapped
      have hnew : (⟨fp, expr, 0, .cold⟩ : Entry β) = Entry.map f ⟨fp, expr, 0, .cold⟩ := rfl
      rw [record_of_none hfind, record_of_none hmapped, hnew, Entry.submit_map, evictIfFull_map, put_map]
      rfl

/-- The cache with an entry brought to another stage. -/
def settle (c : Cache α) (fp : Fingerprint) (stage : Stage α) : Cache α :=
  match c.find? fp with
  | some x => c.put { x with stage := stage }
  | none => c

theorem settle_map (fp : Fingerprint) (stage : Stage α) :
    (c.map f).settle fp (stage.map f) = (c.settle fp stage).map f := by
  unfold settle
  rw [find?_map]
  cases c.find? fp with
  | none => rfl
  | some x => exact put_map f c { x with stage := stage }

theorem ranking_map : (c.map f).ranking = c.ranking.map (Entry.map f) := by
  unfold ranking map
  symm
  apply List.map_mergeSort
  intro x _ y _
  rfl

end Cache

end TierCalc
