import Mathlib.Data.List.Basic
import TierCalc.Proofs.Routine.Body
import TierCalc.Routine.Layout

/-!
# Blocks by name

Slots are numbers; a caller knows names. For a layout with distinct names, the word of a name stands at twice its
place in the list (`getD_load_value`), and the names that a routine assigned are those with a mark (`mem_assigned`).
-/

namespace TierCalc.Routine

namespace Frame

/-- The block with the values of names, the first of which has a given slot. -/
def loadFrom (value? : String → Option Int64) (k : Nat) (names : List String) (f : Frame) : Frame :=
  (names.zipIdx k).foldl
    (fun f p =>
      match value? p.1 with
      | some v => f.setValue p.2 v
      | none => f) f

theorem load_eq_loadFrom (l : Layout) (value? : String → Option Int64) :
    load l value? = loadFrom value? 0 l.names (zero l.size) := rfl

theorem length_setValue (f : Frame) (slot : Nat) (v : Int64) : (f.setValue slot v).length = f.length := List.length_set

theorem getD_setValue_of_ne (f : Frame) {slot j : Nat} (h : j ≠ 1 + 2 * slot) (v : Int64) :
    (f.setValue slot v).getD j 0 = f.getD j 0 := by
  rw [setValue, List.getD_eq_getElem?_getD, List.getD_eq_getElem?_getD, List.getElem?_set_ne h.symm]

section
variable (value? : String → Option Int64)

theorem loadFrom_cons (k : Nat) (n : String) (names : List String) (f : Frame) :
    loadFrom value? k (n :: names) f =
      loadFrom value? (k + 1) names (match value? n with | some v => f.setValue k v | none => f) := by
  rw [loadFrom, List.zipIdx_cons, List.foldl_cons]
  rfl

theorem length_loadFrom (k : Nat) (names : List String) (f : Frame) :
    (loadFrom value? k names f).length = f.length := by
  induction names generalizing k f with
  | nil => rfl
  | cons n names ih =>
      rw [loadFrom_cons, ih]
      cases value? n with
      | none => rfl
      | some v => exact length_setValue f k v

theorem getD_loadFrom_of_ne {k j : Nat} {names : List String} (h : ∀ i, k ≤ i → j ≠ 1 + 2 * i) (f : Frame) :
    (loadFrom value? k names f).getD j 0 = f.getD j 0 := by
  induction names generalizing k f with
  | nil => rfl
  | cons n names ih =>
      rw [loadFrom_cons, ih fun i hi => h i (by omega)]
      cases value? n with
      | none => rfl
      | some v => exact getD_setValue_of_ne f (h k le_rfl) v

theorem getD_loadFrom {k : Nat} {names : List String} (hn : names.Nodup) {f : Frame}
    (hf : 1 + 2 * (k + names.length) ≤ f.length + 1) {n : String} (hmem : n ∈ names) :
    (loadFrom value? k names f).getD (1 + 2 * (k + names.idxOf n)) 0 =
      (value? n).getD (f.getD (1 + 2 * (k + names.idxOf n)) 0) := by
  induction names generalizing k f with
  | nil => cases hmem
  | cons m names ih =>
      rw [List.nodup_cons] at hn
      rw [loadFrom_cons]
      by_cases hm : n = m
      · subst hm
        rw [List.idxOf_cons_self, Nat.add_zero, getD_loadFrom_of_ne _ fun i hi => by omega]
        cases value? n with
        | none => rfl
        | some v =>
            rw [List.length_cons] at hf
            have hlt : 1 + 2 * k < f.length := by omega
            simp [setValue, hlt]
      · have hmem' := (List.mem_cons.mp hmem).resolve_left hm
        have hidx : k + (m :: names).idxOf n = k + 1 + names.idxOf n := by
          rw [List.idxOf_cons_ne _ (Ne.symm hm)]
          omega
        rw [hidx]
        rw [List.length_cons] at hf
        cases value? m with
        | none => exact ih hn.2 (by dsimp only; omega) hmem'
        | some v =>
            have hlen := length_setValue f k v
            have hne : 1 + 2 * (k + 1 + names.idxOf n) ≠ 1 + 2 * k := by omega
            rw [← getD_setValue_of_ne f hne v]
            dsimp only
            exact ih hn.2 (by omega) hmem'

end

variable {l : Layout} {value? : String → Option Int64}

theorem length_load : (load l value?).length = words l.size := by
  rw [load_eq_loadFrom, length_loadFrom, zero, List.length_replicate]

theorem getD_zero (slots i : Nat) : (zero slots).getD i 0 = 0 := by
  rw [zero, List.getD_eq_getElem?_getD, List.getElem?_replicate]
  split_ifs <;> rfl

theorem getD_load_even {j : Nat} (h : j % 2 = 0) : (load l value?).getD j 0 = 0 := by
  rw [load_eq_loadFrom, getD_loadFrom_of_ne _ fun i _ => by omega, getD_zero]

theorem getD_load_value (hn : l.names.Nodup) {n : String} (hmem : n ∈ l.names) :
    (load l value?).getD (1 + 2 * l.names.idxOf n) 0 = (value? n).getD 0 := by
  have h := getD_loadFrom value? (k := 0) hn (f := zero l.size) (by simp [zero, words, Layout.size]) hmem
  rwa [Nat.zero_add, getD_zero] at h

theorem mem_assigned {f : Frame} (hn : l.names.Nodup) {n : String} {v : Int64} :
    (n, v) ∈ assigned l f ↔ n ∈ l.names ∧ f.written (l.names.idxOf n) = true ∧ f.value (l.names.idxOf n) = v := by
  simp only [assigned, List.mem_map, List.mem_filter, Prod.mk.injEq]
  constructor
  · rintro ⟨⟨m, i⟩, ⟨hi, hw⟩, rfl, rfl⟩
    have hget : l.names[i]? = some m := List.mem_zipIdx_iff_getElem?.mp hi
    obtain ⟨hlt, rfl⟩ := List.getElem?_eq_some_iff.mp hget
    rw [hn.idxOf_getElem i hlt]
    exact ⟨List.getElem_mem hlt, hw, rfl⟩
  · rintro ⟨hmem, hw, rfl⟩
    refine ⟨(n, l.names.idxOf n), ⟨?_, hw⟩, rfl, rfl⟩
    rw [List.mem_zipIdx_iff_getElem?, List.getElem?_eq_some_iff]
    exact ⟨List.idxOf_lt_length_of_mem hmem, List.getElem_idxOf _⟩

/-- A block whose marks and values come from assignments holds exactly them. -/
theorem mem_assigned_of_marks {f : Frame} (hn : l.names.Nodup) {given : String → Option Int64} {before : String → Int64}
    (hgiven : ∀ n, (given n).isSome → n ∈ l.names)
    (hmark : ∀ n ∈ l.names, f.getD (2 + 2 * l.names.idxOf n) 0 = if (given n).isSome then 1 else 0)
    (hvalue : ∀ n ∈ l.names, f.getD (1 + 2 * l.names.idxOf n) 0 = (given n).getD (before n)) (n : String) (v : Int64) :
    (n, v) ∈ assigned l f ↔ given n = some v := by
  rw [mem_assigned hn, written, value]
  by_cases hmem : n ∈ l.names
  · rw [hmark n hmem, hvalue n hmem]
    cases given n with
    | none => simp
    | some x => simp [hmem]
  · have hnone : given n = none := by
      rw [← Option.not_isSome_iff_eq_none]
      exact fun h => hmem (hgiven n h)
    simp [hmem, hnone]

theorem nodup_assigned {f : Frame} (hn : l.names.Nodup) : ((assigned l f).map Prod.fst).Nodup := by
  have hsub : ((assigned l f).map Prod.fst).Sublist l.names := by
    rw [assigned, List.map_map]
    have h := (List.filter_sublist (p := fun p => f.written p.2) (l := l.names.zipIdx)).map Prod.fst
    rwa [List.zipIdx_map_fst] at h
  exact hn.sublist hsub

end Frame

end TierCalc.Routine
