import TierCalc.Diagnostic.Report
import TierCalc.Proofs.Text.Bytes

/-!
# Carets under an excerpt

A report with one line of source ends with that line and a run of carets. Both lines have a margin in front, which ends
with a bar and a blank, and the margins are equally wide: so a caret stands under the byte that is as far from the bar.
-/

namespace TierCalc

/-! ### The margin -/

namespace Numeral

theorem toString_natCast (n : Nat) : toString (n : Int) = String.ofList (Nat.toDigits 10 n) := rfl

theorem isDigit_decimal {n : Nat} {c : Char} (h : c ∈ (toString (n : Int)).toList) : c.isDigit = true := by
  rw [toString_natCast, String.toList_ofList] at h
  exact Nat.isDigit_of_mem_toDigits (by decide) (by decide) h

theorem ascii_decimal (n : Nat) : ∀ c ∈ (toString (n : Int)).toList, c.toNat < 128 := by
  intro c hc
  exact Nat.lt_of_le_of_lt (Char.isDigit_iff_toNat.mp (isDigit_decimal hc)).2 (by decide)

theorem feed_notMem_decimal (n : Nat) : 10 ∉ Bytes.ofString (toString (n : Int)) := by
  obtain ⟨bs, hbs, hn⟩ := Bytes.exists_ascii (ascii_decimal n)
  rw [← hn, Bytes.ofString_ascii hbs]
  intro hfeed
  have hmem : Char.ofNat 10 ∈ (toString (n : Int)).toList := by
    rw [← hn, Bytes.toList_ascii]
    exact List.mem_map_of_mem hfeed
  exact absurd (isDigit_decimal hmem) (by decide)

theorem ofString_blanks (n : Nat) : Bytes.ofString (blanks n) = List.replicate n 32 :=
  Bytes.ofString_replicate (b := 32) (by decide) n

theorem ofString_decPadded (width n : Nat) :
    Bytes.ofString (decPadded width n)
      = List.replicate (width - (toString (n : Int)).length) 32 ++ Bytes.ofString (toString (n : Int)) := by
  rw [decPadded, padLeft, Bytes.ofString_append]
  exact congrArg (· ++ _) (Bytes.ofString_replicate (b := 32) (by decide) _)

end Numeral

namespace Report

variable {r : Report}

theorem length_le_marginWidth {n : Nat} (h : r.line = n) : (toString (n : Int)).length ≤ r.marginWidth := by
  have hshort : ∀ n < 100, (toString ((n : Nat) : Int)).length ≤ 2 := by decide
  unfold marginWidth
  rw [h]
  split
  · exact Nat.le_refl _
  · exact hshort n (by omega)

/-- The margin of a line with its number is as wide as one of blanks, and on one line. -/
theorem margin_with_number {n : Nat} (h : r.line = n) :
    (Bytes.ofString (Numeral.decPadded r.marginWidth n)).length = r.marginWidth ∧
      10 ∉ Bytes.ofString (Numeral.decPadded r.marginWidth n) := by
  have hwidth := length_le_marginWidth h
  rw [Numeral.ofString_decPadded]
  constructor
  · rw [List.length_append, List.length_replicate, Bytes.length_ofString_of_ascii (Numeral.ascii_decimal n)]
    omega
  · rw [List.mem_append, not_or]
    refine ⟨fun hfeed => ?_, Numeral.feed_notMem_decimal n⟩
    exact absurd (List.eq_of_mem_replicate hfeed) (by decide)

/-! ### The last two lines -/

/-- Whether a text ends with two lines, of which the first shows some bytes after a bar and a blank, and the second has
in it, as far from the bar as a column of these bytes, a number of carets. -/
def Underlines (text line : Bytes) (column count : Nat) : Prop :=
  ∃ front label margin : Bytes,
    text = front ++ (label ++ [124, 32] ++ line ++ [10])
      ++ (margin ++ [124, 32] ++ List.replicate column 32 ++ List.replicate count 94 ++ [10]) ∧
    front.getLast? = some 10 ∧ label.length = margin.length ∧ 10 ∉ label ∧ ∀ b ∈ margin, b = 32

theorem ofString_bar : Bytes.ofString " | " = [32] ++ [124, 32] := by
  rw [Bytes.ofString_eq]
  rfl

theorem ofString_feed : Bytes.ofString "\n" = [10] := by
  rw [Bytes.ofString_eq]
  rfl

theorem ofString_empty : Bytes.ofString "" = [] := by
  rw [Bytes.ofString_eq]
  rfl

theorem ofString_caretLine (r : Report) :
    Bytes.ofString (r.caretLine false) = List.replicate r.marginWidth 32 ++ ([32] ++ [124, 32])
      ++ List.replicate (r.column - 1).toNat 32 ++ List.replicate r.caretCount 94 ++ [10] := by
  have hcarets : Bytes.ofString (String.ofList (List.replicate r.caretCount '^')) = List.replicate r.caretCount 94 :=
    Bytes.ofString_replicate (b := 94) (by decide) _
  simp only [caretLine, paint, Bool.false_eq_true, if_false, Bytes.ofString_append, Numeral.ofString_blanks,
    ofString_bar, hcarets, ofString_feed]

/-- A report with one line of source and no remarks ends with that line and the carets under it. -/
theorem render_underlines {line : Bytes} {n : Nat} (hexcerpt : r.excerpt = [⟨n, line, true⟩]) (hline : r.line = n)
    (hcolumn : 0 < r.column) (hhint : r.hint = "") (hnote : r.note = "") :
    Underlines (r.render false) line (r.column - 1).toNat r.caretCount := by
  obtain ⟨hwidth, hfeed⟩ := margin_with_number hline
  have hremarks :
      Bytes.ofString (r.remark false .hint "hint: " r.hint ++ r.remark false .note "note: " r.note) = [] := by
    rw [hhint, hnote]
    exact ofString_empty
  refine ⟨Bytes.ofString (r.heading false ++ r.placeLine false)
      ++ Bytes.ofString (Numeral.blanks r.marginWidth ++ " |" ++ "\n"),
    Bytes.ofString (Numeral.decPadded r.marginWidth n) ++ [32], List.replicate r.marginWidth 32 ++ [32],
    ?_, ?_, ?_, ?_, ?_⟩
  · have hmain : excerptLine false r ⟨n, line, true⟩
        = Bytes.ofString (Numeral.decPadded r.marginWidth n) ++ ([32] ++ [124, 32]) ++ line
          ++ ([10] ++ Bytes.ofString (r.caretLine false)) := by
      simp [excerptLine, paint, hcolumn, Bytes.ofString_append, ofString_bar, ofString_feed]
    rw [render, excerptLines, hexcerpt, hremarks, List.flatMap_singleton, hmain, ofString_caretLine]
    simp [paint]
  · rw [Bytes.ofString_append _ "\n", ofString_feed, ← List.append_assoc, List.getLast?_append]
    rfl
  · rw [List.length_append, List.length_append, hwidth, List.length_replicate]
  · rw [List.mem_append, not_or]
    exact ⟨hfeed, by decide⟩
  · intro b hb
    rcases List.mem_append.mp hb with hb | hb
    · exact List.eq_of_mem_replicate hb
    · exact List.mem_singleton.mp hb

end Report

end TierCalc
