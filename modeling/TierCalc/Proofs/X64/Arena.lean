import Mathlib.Data.List.Nodup
import TierCalc.X64.Arena

/-!
# Which regions are live

A handle is live from the moment its region is prepared until the region is given up. Preparing adds one live handle
(`live_of_prepare`), and a live handle can be given up, which takes away it alone (`release_of_live`). A handle that is
not live any more does not come back (`Ages`).
-/

namespace TierCalc.X64.Arena

/-- Whether one arena comes from another: no handle is lost, and none that was given up is live again. -/
structure Ages (a b : Arena) : Prop where
  taken : a.regions.length ≤ b.regions.length
  live : ∀ h, h < a.regions.length → h ∈ b.live → h ∈ a.live

section
variable {a a' b c : Arena} {h : Handle}

theorem Ages.refl (a : Arena) : Ages a a := ⟨Nat.le_refl _, fun _ _ hlive => hlive⟩

theorem Ages.trans (hab : Ages a b) (hbc : Ages b c) : Ages a c := by
  refine ⟨Nat.le_trans hab.taken hbc.taken, ?_⟩
  intro h htaken hlive
  exact hab.live h htaken (hbc.live h (Nat.lt_of_lt_of_le htaken hab.taken) hlive)

theorem mem_live : h ∈ a.live ↔ ∃ r, a.get? h = some r ∧ r.executable = true := by
  unfold live
  constructor
  · intro hmem
    obtain ⟨⟨r, g⟩, hp, rfl⟩ := List.mem_map.mp hmem
    obtain ⟨hzip, hexec⟩ := List.mem_filter.mp hp
    exact ⟨r, List.mem_zipIdx_iff_getElem?.mp hzip, hexec⟩
  · rintro ⟨r, hget, hexec⟩
    refine List.mem_map.mpr ⟨(r, h), List.mem_filter.mpr ⟨?_, hexec⟩, rfl⟩
    exact List.mem_zipIdx_iff_getElem?.mpr hget

theorem nodup_live (a : Arena) : a.live.Nodup := by
  have hsub : List.Sublist a.live (a.regions.zipIdx.map (·.2)) := List.filter_sublist.map _
  refine hsub.nodup ?_
  rw [List.zipIdx_map_snd]
  exact List.nodup_range'

theorem lt_of_live (hlive : h ∈ a.live) : h < a.regions.length := by
  obtain ⟨r, hget, -⟩ := mem_live.mp hlive
  exact (List.getElem?_eq_some_iff.mp hget).1

theorem live_of_prepare {code : Bytes} {entry : Int} (hp : a.prepare code entry = .ok (h, a')) :
    a'.live = a.live ++ [h] ∧ Ages a a' := by
  unfold prepare at hp
  split at hp
  · rename_i r hr
    simp only [Except.ok.injEq, Prod.mk.injEq] at hp
    obtain ⟨rfl, rfl⟩ := hp
    have hexec : r.executable = true := by
      unfold Region.prepare at hr
      split_ifs at hr
      obtain rfl := Except.ok.inj hr
      rfl
    have hlive : live ⟨a.regions ++ [r]⟩ = a.live ++ [a.regions.length] := by
      simp [live, List.zipIdx_append, hexec]
    refine ⟨hlive, by simp, ?_⟩
    intro g hg hmem
    rw [hlive, List.mem_append, List.mem_singleton] at hmem
    rcases hmem with hmem | rfl
    · exact hmem
    · exact absurd hg (Nat.lt_irrefl _)
  · cases hp

/-- A live handle can be given up; then it is not live any more, and all others are as they were. -/
theorem release_of_live (hlive : h ∈ a.live) :
    ∃ a', a.release h = .ok a' ∧ a.live.Perm (h :: a'.live) ∧ Ages a a' := by
  obtain ⟨r, hget, hexec⟩ := mem_live.mp hlive
  have hlt := lt_of_live hlive
  have hmem (g : Handle) : g ∈ live ⟨a.regions.set h { r with executable := false }⟩ ↔ g ∈ a.live ∧ g ≠ h := by
    rw [mem_live, mem_live]
    by_cases hg : g = h
    · subst hg
      simp [get?, hlt]
    · simp [get?, List.getElem?_set_ne (Ne.symm hg), hg]
  refine ⟨⟨a.regions.set h { r with executable := false }⟩, ?_, ?_, ⟨by simp, fun g _ hg => ((hmem g).mp hg).1⟩⟩
  · rw [release, hget]
    simp only [Region.release, hexec, if_true]
  · refine (List.perm_ext_iff_of_nodup (nodup_live a) ?_).mpr fun g => ?_
    · exact List.nodup_cons.mpr ⟨fun hg => ((hmem h).mp hg).2 rfl, nodup_live _⟩
    · rw [List.mem_cons, hmem g]
      constructor
      · intro hg
        by_cases hgh : g = h
        · exact .inl hgh
        · exact .inr ⟨hg, hgh⟩
      · rintro (rfl | ⟨hg, -⟩)
        · exact hlive
        · exact hg

theorem error_of_invoke (hlive : h ∈ a.live) {frame : List Word} {r : RegionError}
    (hr : a.invoke h frame = .error r) : r = .emptyFrame ∨ r = .trapped := by
  obtain ⟨region, hget, hexec⟩ := mem_live.mp hlive
  rw [invoke, hget] at hr
  simp only [Region.invoke, hexec, Bool.not_true, Bool.false_eq_true, if_false] at hr
  split_ifs at hr
  · exact .inl (Except.error.inj hr).symm
  · split at hr
    · cases hr
    · exact .inr (Except.error.inj hr).symm

end

end TierCalc.X64.Arena
