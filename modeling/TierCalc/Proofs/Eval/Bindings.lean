import Mathlib.Data.List.Perm.Lattice
import Mathlib.Data.String.Basic
import TierCalc.Eval.Scope

/-!
# Bindings by their view

`Bindings.get?` tells all about bindings that are in order: two of them with the same values are equal
(`Bindings.Ordered.ext`). Every operation keeps the order and has one equation through the view.
-/

namespace TierCalc

namespace Bindings

/-- Whether names stand in increasing order, each once. -/
def Ordered (b : Bindings) : Prop := b.entries.Pairwise fun p q => p.1 < q.1

/-! ### One name -/

theorem lookup_put (name : String) (value : Int64) (l : List (String × Int64)) (n : String) :
    (put name value l).lookup n = if n = name then some value else l.lookup n := by
  induction l with
  | nil => grind [put]
  | cons p rest ih =>
      obtain ⟨m, v⟩ := p
      rw [put]
      split_ifs <;> grind

@[simp] theorem get?_set (b : Bindings) (name : String) (value : Int64) (n : String) :
    (b.set name value).get? n = if n = name then some value else b.get? n :=
  lookup_put name value b.entries n

theorem mem_put {name : String} {value : Int64} {l : List (String × Int64)} {p : String × Int64}
    (h : p ∈ put name value l) : p = (name, value) ∨ p ∈ l := by
  induction l with
  | nil => simpa [put] using h
  | cons q rest ih =>
      rw [put] at h
      split_ifs at h <;> grind

theorem pairwise_put (name : String) (value : Int64) {l : List (String × Int64)}
    (h : l.Pairwise fun p q => p.1 < q.1) : (put name value l).Pairwise fun p q => p.1 < q.1 := by
  induction l with
  | nil => simp [put]
  | cons p rest ih =>
      obtain ⟨m, v⟩ := p
      rw [List.pairwise_cons] at h
      rw [put]
      split_ifs with h1 h2
      · exact List.pairwise_cons.mpr h
      · refine List.pairwise_cons.mpr ⟨?_, List.pairwise_cons.mpr h⟩
        rintro q hq
        rcases List.mem_cons.mp hq with rfl | hq
        · exact h2
        · exact h2.trans (h.1 q hq)
      · refine List.pairwise_cons.mpr ⟨?_, ih h.2⟩
        intro q hq
        rcases mem_put hq with rfl | hq
        · exact lt_of_le_of_ne (not_lt.mp h2) (Ne.symm h1)
        · exact h.1 q hq

theorem Ordered.set {b : Bindings} (h : b.Ordered) (name : String) (value : Int64) : (b.set name value).Ordered :=
  pairwise_put name value h

theorem ordered_empty : ({} : Bindings).Ordered := List.Pairwise.nil

@[simp] theorem get?_empty (n : String) : ({} : Bindings).get? n = none := rfl

/-! ### Many names -/

/-- The bindings after setting one name after another. -/
def setAll (b : Bindings) (l : List (String × Int64)) : Bindings := l.foldl (fun b p => b.set p.1 p.2) b

theorem Ordered.setAll {b : Bindings} (h : b.Ordered) (l : List (String × Int64)) : (b.setAll l).Ordered := by
  induction l generalizing b with
  | nil => exact h
  | cons p rest ih => exact ih (h.set p.1 p.2)

theorem get?_setAll (b : Bindings) {l : List (String × Int64)} (h : (l.map Prod.fst).Nodup) (n : String) :
    (b.setAll l).get? n = (l.lookup n).or (b.get? n) := by
  induction l generalizing b with
  | nil => rfl
  | cons p rest ih =>
      obtain ⟨m, v⟩ := p
      rw [List.map_cons, List.nodup_cons] at h
      change ((b.set m v).setAll rest).get? n = _
      rw [ih _ h.2, get?_set]
      by_cases hn : n = m
      · subst hn
        have hnone : rest.lookup n = none := by
          rw [List.lookup_eq_none_iff]
          intro q hq
          rw [bne_iff_ne]
          intro e
          exact h.1 (List.mem_map.mpr ⟨q, hq, e.symm⟩)
        rw [hnone, if_pos rfl, List.lookup_cons_self]
        rfl
      · rw [if_neg hn, List.lookup_cons, beq_eq_false_iff_ne.mpr hn]

theorem Ordered.nodup {b : Bindings} (h : b.Ordered) : (b.entries.map Prod.fst).Nodup :=
  List.pairwise_map.mpr (h.imp fun h => ne_of_lt h)

theorem get?_update {w : Bindings} (b : Bindings) (hw : w.Ordered) (n : String) :
    (b.update w).get? n = (w.get? n).or (b.get? n) := get?_setAll b hw.nodup n

theorem isSome_get?_setAll {b : Bindings} {n : String} (h : (b.get? n).isSome = true) (l : List (String × Int64)) :
    ((b.setAll l).get? n).isSome = true := by
  induction l generalizing b with
  | nil => exact h
  | cons p rest ih =>
      have hset : ((b.set p.1 p.2).get? n).isSome = true := by
        rw [get?_set]
        split_ifs
        · rfl
        · exact h
      exact ih hset

theorem Ordered.update {b : Bindings} (h : b.Ordered) (w : Bindings) : (b.update w).Ordered := h.setAll w.entries

theorem ordered_ofList (l : List (String × Int64)) : (ofList l).Ordered := ordered_empty.setAll l

theorem get?_ofList {l : List (String × Int64)} (h : (l.map Prod.fst).Nodup) (n : String) :
    (ofList l).get? n = l.lookup n := (get?_setAll {} h n).trans (by simp)

/-- The pairs of a list with distinct names are those that are found by name. -/
theorem mem_iff_lookup {l : List (String × Int64)} (h : (l.map Prod.fst).Nodup) {n : String} {v : Int64} :
    (n, v) ∈ l ↔ l.lookup n = some v := by
  induction l with
  | nil => simp
  | cons p rest ih =>
      obtain ⟨m, w⟩ := p
      rw [List.map_cons, List.nodup_cons] at h
      rw [List.mem_cons, List.lookup_cons, ih h.2]
      by_cases hn : n = m
      · subst hn
        have hrest : rest.lookup n ≠ some v := fun e => h.1 (List.mem_map.mpr ⟨_, (ih h.2).mpr e, rfl⟩)
        simp [hrest, eq_comm]
      · rw [beq_eq_false_iff_ne.mpr hn]
        simp [hn]

theorem get?_ofList_eq_some {l : List (String × Int64)} (h : (l.map Prod.fst).Nodup) {n : String} {v : Int64} :
    (ofList l).get? n = some v ↔ (n, v) ∈ l := by
  rw [get?_ofList h, mem_iff_lookup h]

/-- Bindings in order are equal if they bind the same names to the same values. -/
theorem Ordered.ext {a b : Bindings} (ha : a.Ordered) (hb : b.Ordered) (h : ∀ n, a.get? n = b.get? n) : a = b := by
  have hmem (p : String × Int64) : p ∈ a.entries ↔ p ∈ b.entries := by
    rw [mem_iff_lookup ha.nodup, mem_iff_lookup hb.nodup]
    exact Eq.congr_left (h p.1)
  have hperm : a.entries.Perm b.entries :=
    (List.perm_ext_iff_of_nodup ha.nodup.of_map hb.nodup.of_map).mpr hmem
  have hentries : a.entries = b.entries :=
    hperm.eq_of_pairwise (fun p q _ _ hpq hqp => absurd hpq hqp.asymm) ha hb
  cases a
  cases b
  exact congrArg Bindings.mk hentries

end Bindings

end TierCalc
