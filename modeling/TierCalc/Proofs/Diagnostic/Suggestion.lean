import TierCalc.Diagnostic.Suggestion
import TierCalc.Proofs.Diagnostic.EditDistance
import TierCalc.Proofs.Text.Bytes

/-!
# Suggestions are the nearest names

For names in ASCII the suggestions are the first three of the names that are near enough, by distance and then by name.

* `ofString_lower`: lower case in ASCII, byte by byte.
* `Precedes` orders suggestions, without ties between different ones; so what is suggested does not depend on the order
  in which names are known (`similar_perm`).
-/

namespace TierCalc

/-! ### Lower case in ASCII -/

/-- The lower-case counterpart of a byte in ASCII. -/
def Bytes.lowerByte (b : UInt8) : UInt8 := if 65 ≤ b ∧ b ≤ 90 then b + 32 else b

namespace Text

/-- Whether a text is in ASCII. -/
def Ascii (s : String) : Prop := ∀ c ∈ s.toList, c.toNat < 128

instance : DecidablePred Ascii := fun s =>
  decidable_of_iff (s.toList.all (fun c => c.toNat < 128) = true) (by simp [Ascii])

/-- Capital letters beyond the first run are not in ASCII. -/
theorem find?_caseRuns {n : Nat} (h : n < 128) :
    caseRuns.find? (·.contains n) = if 65 ≤ n ∧ n ≤ 90 then some ⟨0x41, 0x5A, 1, 32⟩ else none := by
  have hruns : caseRuns = ⟨0x41, 0x5A, 1, 32⟩ :: caseRuns.tail := rfl
  have hbeyond : caseRuns.tail.all (fun r => 128 ≤ r.first) = true := by decide
  have hnone : caseRuns.tail.find? (·.contains n) = none := by
    rw [List.find?_eq_none]
    intro r hr hcontains
    have hfirst : 128 ≤ r.first := of_decide_eq_true (List.all_eq_true.mp hbeyond r hr)
    simp only [CaseRun.contains, Bool.and_eq_true, decide_eq_true_eq] at hcontains
    omega
  have hfirst : CaseRun.contains ⟨0x41, 0x5A, 1, 32⟩ n = decide (65 ≤ n ∧ n ≤ 90) := by
    simp [CaseRun.contains, Nat.mod_one]
  rw [hruns, List.find?_cons, hfirst, hnone]
  by_cases hn : 65 ≤ n ∧ n ≤ 90
  · simp [hn]
  · simp [hn]

theorem toNat_lowerByte {b : UInt8} (h : b.toNat < 128) :
    (Bytes.lowerByte b).toNat = if 65 ≤ b.toNat ∧ b.toNat ≤ 90 then b.toNat + 32 else b.toNat := by
  have hcapital : (65 ≤ b ∧ b ≤ 90) ↔ 65 ≤ b.toNat ∧ b.toNat ≤ 90 := by
    rw [UInt8.le_iff_toNat_le, UInt8.le_iff_toNat_le]
    rfl
  by_cases hb : 65 ≤ b.toNat ∧ b.toNat ≤ 90
  · rw [if_pos hb, Bytes.lowerByte, if_pos (hcapital.mpr hb), UInt8.toNat_add]
    exact Nat.mod_eq_of_lt (by simp; omega)
  · rw [if_neg hb, Bytes.lowerByte, if_neg (mt hcapital.mp hb)]

theorem lowerChar_ascii {b : UInt8} (h : b.toNat < 128) :
    lowerChar (Char.ofNat b.toNat) = Char.ofNat (Bytes.lowerByte b).toNat := by
  rw [lowerChar, Bytes.toNat_char, find?_caseRuns h, toNat_lowerByte h]
  by_cases hb : 65 ≤ b.toNat ∧ b.toNat ≤ 90
  · rw [if_pos hb, if_pos hb]
    rfl
  · rw [if_neg hb, if_neg hb]

theorem lower_ascii {bs : Bytes} (h : ∀ b ∈ bs, b.toNat < 128) :
    lower (Bytes.ascii bs) = Bytes.ascii (bs.map Bytes.lowerByte) := by
  rw [← String.toList_inj, lower, String.toList_ofList, Bytes.toList_ascii, Bytes.toList_ascii, List.map_map,
    List.map_map]
  exact List.map_congr_left fun b hb => lowerChar_ascii (h b hb)

theorem ofString_lower {s : String} (h : Ascii s) :
    Bytes.ofString (lower s) = (Bytes.ofString s).map Bytes.lowerByte := by
  obtain ⟨bs, hbs, rfl⟩ := Bytes.exists_ascii h
  have hlower : ∀ b ∈ bs.map Bytes.lowerByte, b.toNat < 128 := by
    intro b hb
    obtain ⟨c, hc, rfl⟩ := List.mem_map.mp hb
    have hlt := hbs c hc
    rw [toNat_lowerByte hlt]
    split_ifs <;> omega
  rw [lower_ascii hbs, Bytes.ofString_ascii hlower, Bytes.ofString_ascii hbs]

end Text

namespace Suggestion

/-! ### The order of suggestions -/

/-- The nearer suggestion first, and of two at one distance the lesser name. -/
def Precedes (s t : Suggestion) : Prop := s.distance < t.distance ∨ s.distance = t.distance ∧ s.value ≤ t.value

theorem le_iff {s t : Suggestion} : le s t = true ↔ s.Precedes t := by
  simp [le, Precedes]

namespace Precedes

variable {s t u : Suggestion}

theorem trans (h : s.Precedes t) (h' : t.Precedes u) : s.Precedes u := by
  unfold Precedes at *
  rcases h with h | ⟨h, hv⟩ <;> rcases h' with h' | ⟨h', hv'⟩
  · exact .inl (by omega)
  · exact .inl (by omega)
  · exact .inl (by omega)
  · exact .inr ⟨h.trans h', String.le_trans hv hv'⟩

theorem total (s t : Suggestion) : s.Precedes t ∨ t.Precedes s := by
  unfold Precedes
  rcases Nat.lt_trichotomy s.distance t.distance with h | h | h
  · exact .inl (.inl h)
  · rcases String.le_total s.value t.value with hv | hv
    · exact .inl (.inr ⟨h, hv⟩)
    · exact .inr (.inr ⟨h.symm, hv⟩)
  · exact .inr (.inl h)

theorem antisymm (h : s.Precedes t) (h' : t.Precedes s) : s = t := by
  obtain ⟨v, d⟩ := s
  obtain ⟨w, e⟩ := t
  unfold Precedes at h h'
  rcases h with h | ⟨h, hv⟩ <;> rcases h' with h' | ⟨h', hv'⟩
  · exact absurd h' (by simp only at *; omega)
  · exact absurd h (by simp only at *; omega)
  · exact absurd h' (by simp only at *; omega)
  · simp only at h hv hv'
    rw [h, String.le_antisymm hv hv']

end Precedes

theorem sorted_mergeSort (l : List Suggestion) : (l.mergeSort le).Pairwise Precedes := by
  have h := @List.pairwise_mergeSort _ le (fun s t u hst htu => ?_) (fun s t => ?_) l
  · exact h.imp le_iff.mp
  · exact le_iff.mpr ((le_iff.mp hst).trans (le_iff.mp htu))
  · rw [Bool.or_eq_true, le_iff, le_iff]
    exact Precedes.total s t

/-! ### What is suggested -/

/-- The distance of two names in ASCII regardless of case. -/
def asciiDistance (a b : String) : Nat :=
  EditDistance.distance ((Bytes.ofString a).map Bytes.lowerByte) ((Bytes.ofString b).map Bytes.lowerByte)

/-- Whether a name of some length tolerates a distance: three edits, but two if it has at most five characters and one
if it has at most three. -/
def Tolerates (length distance : Nat) : Prop :=
  distance ≤ 3 ∧ (length ≤ 5 → distance ≤ 2) ∧ (length ≤ 3 → distance ≤ 1)

instance (length distance : Nat) : Decidable (Tolerates length distance) := inferInstanceAs (Decidable (_ ∧ _))

/-- The known names that are near enough, with their distances. -/
def near (target : String) (candidates : List String) : List Suggestion :=
  (candidates.filter fun c => c ≠ "" ∧ c ≠ target ∧ Tolerates target.length (asciiDistance target c)).map
    fun c => ⟨c, asciiDistance target c⟩

/-- Whether suggestions are the first three of those that are near enough. -/
structure Nearest (target : String) (candidates : List String) (suggestions : List Suggestion) : Prop where
  sorted : suggestions.Pairwise Precedes
  length : suggestions.length = min 3 (near target candidates).length
  first : ∃ others, (suggestions ++ others).Perm (near target candidates) ∧
    ∀ s ∈ suggestions, ∀ t ∈ others, s.Precedes t

theorem nearest_take {target : String} {candidates : List String} {l : List Suggestion} (hsorted : l.Pairwise Precedes)
    (hperm : l.Perm (near target candidates)) : Nearest target candidates (l.take 3) := by
  have hsplit : l.take 3 ++ l.drop 3 = l := List.take_append_drop 3 l
  have hparts := hsorted
  rw [← hsplit, List.pairwise_append] at hparts
  refine ⟨hparts.1, ?_, l.drop 3, ?_, hparts.2.2⟩
  · rw [List.length_take, hperm.length_eq]
  · rw [hsplit]
    exact hperm

theorem tolerates_iff {length distance : Nat} : distance ≤ threshold length ↔ Tolerates length distance := by
  unfold threshold Tolerates
  split_ifs <;> omega

theorem nameDistance_ascii {a b : String} (ha : Text.Ascii a) (hb : Text.Ascii b) :
    nameDistance a b = asciiDistance a b := by
  rw [nameDistance, Text.ofString_lower ha, Text.ofString_lower hb, asciiDistance]

/-- The suggestions before they are put in order. -/
def unsorted (target : String) (candidates : List String) : List Suggestion :=
  ((candidates.filter fun c => c != "" && c != target).map fun c => ⟨c, nameDistance target c⟩).filter
    fun s => s.distance ≤ threshold target.utf8ByteSize

theorem similar_of_ne {target : String} (h : target ≠ "") (candidates : List String) :
    similar target candidates = ((unsorted target candidates).mergeSort le).take 3 := by
  unfold similar
  rw [if_neg (by simpa using h)]
  rfl

theorem unsorted_ascii {target : String} {candidates : List String} (htarget : Text.Ascii target)
    (hcandidates : ∀ name ∈ candidates, Text.Ascii name) :
    unsorted target candidates = near target candidates := by
  have hdistance {c : String} (hc : c ∈ candidates) : nameDistance target c = asciiDistance target c :=
    nameDistance_ascii htarget (hcandidates c hc)
  unfold unsorted near
  rw [List.filter_map, List.filter_filter]
  have hfilter : (candidates.filter fun c => decide (nameDistance target c ≤ threshold target.utf8ByteSize) &&
        (c != "" && c != target))
      = candidates.filter fun c => c ≠ "" ∧ c ≠ target ∧ Tolerates target.length (asciiDistance target c) := by
    refine List.filter_congr fun c hc => ?_
    rw [hdistance hc, ← Bytes.length_ofString, Bytes.length_ofString_of_ascii htarget, Bool.eq_iff_iff]
    simp only [Bool.and_eq_true, decide_eq_true_eq, bne_iff_ne, tolerates_iff]
    constructor
    · rintro ⟨hnear, hempty, hother⟩
      exact ⟨hempty, hother, hnear⟩
    · rintro ⟨hempty, hother, hnear⟩
      exact ⟨hnear, hempty, hother⟩
  refine (congrArg (List.map _) hfilter).trans (List.map_congr_left fun c hc => ?_)
  rw [hdistance (List.mem_of_mem_filter hc)]

theorem similar_perm (target : String) {candidates candidates' : List String} (h : candidates.Perm candidates') :
    similar target candidates = similar target candidates' := by
  by_cases htarget : target = ""
  · rw [htarget]
    rfl
  · have hunsorted : (unsorted target candidates).Perm (unsorted target candidates') :=
      ((h.filter _).map _).filter _
    have hperm := (List.mergeSort_perm (unsorted target candidates) le).trans
      (hunsorted.trans (List.mergeSort_perm (unsorted target candidates') le).symm)
    have heq := hperm.eq_of_pairwise (fun _ _ _ _ => Precedes.antisymm) (sorted_mergeSort _) (sorted_mergeSort _)
    rw [similar_of_ne htarget, similar_of_ne htarget, heq]

/-- The distance of byte strings is the least number of edits between them, in both directions. For a name in ASCII that
is not empty, the suggestions among names in ASCII are the first three, by distance and then by name, of the names that
are not empty, different and near enough regardless of case; for the empty name there are none. In any case they do not
depend on the order in which the names are known. -/
theorem similar_nearest :
    (∀ a b : Bytes, IsLeast {n | EditDistance.Edits n a b} (EditDistance.distance a b) ∧
      EditDistance.distance a b = EditDistance.distance b a) ∧
    (∀ (target : String) (candidates : List String), Text.Ascii target →
      (∀ name ∈ candidates, Text.Ascii name) →
      (target ≠ "" → Nearest target candidates (similar target candidates)) ∧
      (target = "" → similar target candidates = [])) ∧
    ∀ (target : String) (candidates candidates' : List String), candidates.Perm candidates' →
      similar target candidates = similar target candidates' := by
  refine ⟨fun a b => ⟨EditDistance.isLeast_distance a b, EditDistance.distance_comm a b⟩, ?_,
    fun target _ _ h => similar_perm target h⟩
  intro target candidates htarget hcandidates
  constructor
  · intro hne
    rw [similar_of_ne hne]
    refine nearest_take (sorted_mergeSort _) ?_
    rw [← unsorted_ascii htarget hcandidates]
    exact List.mergeSort_perm _ _
  · rintro rfl
    rfl

/-- Two spellings of one name and a longer one among names that are not near. -/
theorem count_suggested :
    (∀ name ∈ "Cuont" :: ["total", "Count", "counts", "count"], Text.Ascii name) ∧
    Nearest "Cuont" ["total", "Count", "counts", "count"] (similar "Cuont" ["total", "Count", "counts", "count"]) ∧
    similar "Cuont" ["total", "Count", "counts", "count"] = similar "Cuont" ["count", "counts", "Count", "total"] := by
  have hascii : ∀ name ∈ "Cuont" :: ["total", "Count", "counts", "count"], Text.Ascii name := by decide
  refine ⟨hascii, ?_, ?_⟩
  · exact (similar_nearest.2.1 "Cuont" _ (hascii _ (by simp)) fun name h => hascii name (List.mem_cons_of_mem _ h)).1
      (by decide)
  · exact similar_nearest.2.2 _ _ _ (by decide)

/-- A name of one character is near the empty name, but nothing is suggested for that. -/
theorem empty_target_unanswered :
    ¬ ∀ (target : String) (candidates : List String), Text.Ascii target →
      (∀ name ∈ candidates, Text.Ascii name) →
      Nearest target candidates (similar target candidates) := by
  intro h
  have hnearest := (h "" ["a"] (by decide) (by decide)).length
  have hbytes : Bytes.ofString "a" = [97] := Bytes.ofString_ascii (by simp : ∀ b ∈ ([97] : Bytes), b.toNat < 128)
  have hempty : Bytes.ofString "" = [] := Bytes.ofString_ascii (by simp : ∀ b ∈ ([] : Bytes), b.toNat < 128)
  have hone : asciiDistance "" "a" = 1 := by
    rw [asciiDistance, hbytes, hempty]
    decide
  simp [near, hone, Tolerates, similar] at hnearest

end Suggestion

end TierCalc
