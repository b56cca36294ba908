import Mathlib.Data.List.Basic
import TierCalc.Proofs.Source.Lexer

/-!
# What successive steps of reading take

Any number of steps of reading, going on after illegal bytes and after the end, take a source from left to right. Each
takes a piece: blanks, and then a token, an illegal byte, or nothing at the end.

* `Position.Marks`: a position is right about a place in a source.
* `Stands`: a cursor is right about where reading stands. One step takes a piece and leaves a cursor that stands after
  it (`Stands.next`).
* `Taken`: the pieces that were taken follow one another, and each is what it should be.
-/

namespace TierCalc

/-! ### Positions -/

/-- Whether a position is that of the byte at an offset: it counts the line feeds before, and its line starts after the
last of them. -/
structure Position.Marks (s : Source) (n : Nat) (p : Position) : Prop where
  offset : p.offset = n
  within : n ≤ s.bytes.length
  line : p.line = (s.bytes.take n).count 10
  lineStart : ∃ above current, s.bytes.take n = above ++ current ∧ p.lineStart = above.length ∧
    (above = [] ∨ above.getLast? = some 10) ∧ 10 ∉ current
  column : p.column = p.offset - p.lineStart
  file : p.file = s.file

namespace Position

variable {s : Source} {n : Nat} {p : Position} {bs after : Bytes}

theorem take_after (h : s.bytes.drop n = bs ++ after) : s.bytes.take (n + bs.length) = s.bytes.take n ++ bs := by
  rw [List.take_add, h, List.take_left]

theorem within_after (hn : n ≤ s.bytes.length) (h : s.bytes.drop n = bs ++ after) :
    n + bs.length ≤ s.bytes.length := by
  have hlength := congrArg List.length h
  rw [List.length_drop, List.length_append] at hlength
  omega

/-- Bytes other than line feeds are on the same line. -/
theorem Marks.advance (h : p.Marks s n) (hbytes : s.bytes.drop n = bs ++ after) (hbs : 10 ∉ bs) :
    (p.advance bs.length).Marks s (n + bs.length) := by
  obtain ⟨above, current, htake, hstart, habove, hcurrent⟩ := h.lineStart
  refine
    { offset := by simp [Position.advance, h.offset]
      within := within_after h.within hbytes
      line := ?_
      lineStart := ⟨above, current ++ bs, ?_, hstart, habove, by simp [hcurrent, hbs]⟩
      column := ?_
      file := h.file }
  · rw [take_after hbytes, List.count_append, List.count_eq_zero_of_not_mem hbs]
    exact h.line
  · rw [take_after hbytes, htake, List.append_assoc]
  · simp only [Position.advance, h.column]
    omega

theorem Marks.feed (h : p.Marks s n) (hbytes : s.bytes.drop n = 10 :: after) :
    Marks s (n + 1) { offset := n + 1, lineStart := n + 1, line := p.line + 1, column := 0, file := p.file } := by
  have hbytes : s.bytes.drop n = [10] ++ after := hbytes
  have htake : s.bytes.take (n + 1) = s.bytes.take n ++ [10] := take_after hbytes
  have hwithin : n + 1 ≤ s.bytes.length := within_after h.within hbytes
  refine
    { offset := rfl
      within := hwithin
      line := ?_
      lineStart := ⟨s.bytes.take (n + 1), [], by simp, ?_, .inr (by simp [htake]), by simp⟩
      column := by simp
      file := h.file }
  · rw [htake, List.count_append, h.line]
    simp
  · rw [List.length_take, Nat.min_eq_left hwithin]
    simp

end Position

namespace Lexer

/-! ### Pieces -/

/-- Whether a byte is a space, a tab, a carriage return or a line feed. -/
def Blank (b : UInt8) : Prop := b = 32 ∨ b = 9 ∨ b = 13 ∨ b = 10

theorem blank_iff {b : UInt8} : Blank b ↔ (b = 32 ∨ b = 9 ∨ b = 13) ∨ b = 10 := by
  simp [Blank, or_assoc]

/-- What one step takes: blanks and the bytes after them, and what it finds there. -/
structure Piece where
  blanks : Bytes
  spelling : Bytes
  found : Lexeme

def Piece.bytes (p : Piece) : Bytes := p.blanks ++ p.spelling

/-- What a step finds at an offset, of the bytes that it takes there and those after them: the longest token, with its
spelling and its positions; a byte that no token starts with; or the end. -/
inductive Finds (s : Source) (n : Nat) (after : Bytes) : Bytes → Lexeme → Prop where
  | token {t : Token} {spelling : Bytes} (hlongest : Longest t.kind spelling after)
      (hliteral : Bytes.ofString t.literal = spelling)
      (hslice : s.bytes.extract t.start.offset.toNat t.stop.offset.toNat = spelling)
      (hstart : t.start.Marks s n) (hstop : t.stop.Marks s (n + spelling.length)) : Finds s n after spelling (.ok t)
  | illegal {e : LexError} (hnone : ∀ kind bs, bs <+: e.byte :: after → ¬ Spells kind bs) (hpos : e.pos.Marks s n) :
      Finds s n after [e.byte] (.error e)
  | done {t : Token} (hend : n = s.bytes.length) (hkind : t.kind = .eof) (hliteral : t.literal = "")
      (hstart : t.start.Marks s n) (hstop : t.stop = t.start) : Finds s n after [] (.ok t)

/-- Whether a piece is what a step takes between the bytes before it and those after it. -/
structure Piece.Right (s : Source) (before after : Bytes) (p : Piece) : Prop where
  bytes : s.bytes = before ++ (p.bytes ++ after)
  blanks : ∀ b ∈ p.blanks, Blank b
  solid : ∀ b ∈ (p.spelling ++ after).head?, ¬ Blank b
  finds : Finds s (before ++ p.blanks).length after p.spelling p.found

/-- Whether pieces follow one another in a source from the bytes before them on. -/
inductive Taken (s : Source) : Bytes → List Piece → Prop where
  | none (before : Bytes) : Taken s before []
  | more {before after : Bytes} {p : Piece} {ps : List Piece} (h : p.Right s before after)
      (hps : Taken s (before ++ p.bytes) ps) : Taken s before (p :: ps)

/-! ### Cursors -/

/-- Whether a cursor stands in a source after some bytes. -/
structure Stands (s : Source) (before : Bytes) (c : Cursor) : Prop where
  bytes : s.bytes = before ++ c.rest
  position : (c.position s.file).Marks s before.length

section
variable {s : Source} {before : Bytes} {c : Cursor}

theorem stands_start (s : Source) : Stands s [] s.cursor :=
  ⟨rfl, rfl, Nat.zero_le _, rfl, ⟨[], [], rfl, rfl, .inl rfl, by simp⟩, rfl, rfl⟩

theorem Stands.drop (h : Stands s before c) : s.bytes.drop before.length = c.rest := by
  rw [h.bytes, List.drop_left]

theorem Cursor.position_advance (c : Cursor) (rest : Bytes) (n : Nat) (file : String) :
    Cursor.position { c with rest := rest, offset := c.offset + n } file = (c.position file).advance n := by
  simp only [Cursor.position, Position.advance, Position.mk.injEq, true_and, and_true]
  omega

/-- A cursor moves over bytes other than line feeds. -/
theorem Stands.advance (h : Stands s before c) {bs rest : Bytes} (hrest : c.rest = bs ++ rest) (hbs : 10 ∉ bs) :
    Stands s (before ++ bs) { c with rest := rest, offset := c.offset + bs.length } := by
  refine ⟨by rw [h.bytes, hrest, List.append_assoc], ?_⟩
  rw [List.length_append, c.position_advance]
  exact h.position.advance (h.drop.trans hrest) hbs

theorem Stands.feed (h : Stands s before c) {rest : Bytes} (hrest : c.rest = 10 :: rest) :
    Stands s (before ++ [10]) ⟨rest, c.offset + 1, c.line + 1, c.offset + 1⟩ := by
  have hmarks := h.position.feed (h.drop.trans hrest)
  have hoffset : c.offset = before.length := Int.ofNat.inj h.position.offset
  refine ⟨by rw [h.bytes, hrest, List.append_assoc]; rfl, ?_⟩
  rw [List.length_append]
  simpa [Cursor.position, hoffset] using hmarks

/-- Skipping takes all blanks. -/
theorem Stands.skip (h : Stands s before c) :
    ∃ blanks, c.rest = blanks ++ c.skip.rest ∧ (∀ b ∈ blanks, Blank b) ∧ (∀ b ∈ c.skip.rest.head?, ¬ Blank b) ∧
      Stands s (before ++ blanks) c.skip := by
  obtain ⟨rest, offset, line, lineStart⟩ := c
  unfold Cursor.skip
  dsimp only
  induction rest generalizing before offset line lineStart with
  | nil => exact ⟨[], rfl, by simp, by simp [skipBlanks], by simpa [skipBlanks] using h⟩
  | cons b rest ih =>
      unfold skipBlanks
      split_ifs with hsame hfeed
      · have hb : 10 ∉ [b] := by
          rcases hsame with rfl | rfl | rfl <;> decide
        have hrest : b :: rest = [b] ++ rest := rfl
        obtain ⟨blanks, hrest, hblanks, hhead, hstands⟩ := ih _ _ _ (h.advance hrest hb)
        refine ⟨b :: blanks, congrArg (b :: ·) hrest, ?_, hhead, by simpa using hstands⟩
        exact List.forall_mem_cons.mpr ⟨blank_iff.mpr (.inl hsame), hblanks⟩
      · subst hfeed
        obtain ⟨blanks, hrest, hblanks, hhead, hstands⟩ := ih _ _ _ (h.feed rfl)
        refine ⟨10 :: blanks, congrArg (10 :: ·) hrest, ?_, hhead, by simpa using hstands⟩
        exact List.forall_mem_cons.mpr ⟨blank_iff.mpr (.inr rfl), hblanks⟩
      · refine ⟨[], rfl, by simp, ?_, by simpa using h⟩
        rintro _ ⟨⟩ hblank
        rcases blank_iff.mp hblank with hblank | hblank
        · exact hsame hblank
        · exact hfeed hblank

/-! ### One step -/

theorem Spells.notMem_feed {kind : Token.Kind} {bs : Bytes} (h : Spells kind bs) : 10 ∉ bs := by
  intro hmem
  have hvisible := h.visible hmem
  simp at hvisible

/-- Where a cursor stands at no blank, a step finds what is there. -/
theorem Stands.lexeme (h : Stands s before c) (hhead : ∀ b ∈ c.rest.head?, ¬ Blank b) :
    ∃ spelling after, c.rest = spelling ++ after ∧ Finds s before.length after spelling (lexeme s.file c).1 ∧
      Stands s (before ++ spelling) (lexeme s.file c).2 := by
  unfold Lexer.lexeme
  cases hrest : c.rest with
  | nil =>
      have hend : before.length = s.bytes.length := by rw [h.bytes, hrest, List.append_nil]
      refine ⟨[], [], rfl, .done hend rfl rfl h.position ?_, by simpa using h⟩
      simp [token, Position.advance]
  | cons b rest =>
      have hb : b ≠ 10 := by
        rintro rfl
        exact hhead 10 (by rw [hrest]; rfl) (blank_iff.mpr (.inr rfl))
      dsimp only
      cases hmunch : munch b rest with
      | none =>
          refine ⟨[b], rest, rfl, .illegal (e := ⟨b, _⟩) (fun _ _ => munch_eq_none hmunch) h.position, ?_⟩
          exact h.advance hrest (by simpa using hb.symm)
      | some found =>
          obtain ⟨kind, more⟩ := found
          have hlongest : Longest kind (b :: rest.take more) (rest.drop more) := munch_longest hmunch
          have hfeed := hlongest.spells.notMem_feed
          have hspelling : c.rest = (b :: rest.take more) ++ rest.drop more := by
            rw [hrest, List.cons_append, List.take_append_drop]
          have hlength : (b :: rest.take more).length = 1 + more := by
            rw [List.length_cons, List.length_take, Nat.min_eq_left (munch_le hmunch), Nat.add_comm]
          have hstart : (c.position s.file).offset = before.length := h.position.offset
          refine ⟨b :: rest.take more, rest.drop more, hrest.symm.trans hspelling,
            .token hlongest ?_ ?_ h.position ?_, ?_⟩
          · exact Bytes.ofString_ascii fun c hc => Nat.lt_trans (hlongest.spells.visible hc).2 (by decide)
          · have hstop : ((token kind (b :: rest.take more) (c.position s.file)).stop).offset.toNat
                = before.length + (b :: rest.take more).length := by
              simp only [token, Position.advance, hstart]
              omega
            rw [hstop]
            simp only [token, hstart, Int.toNat_natCast, List.extract_eq_take_drop, Nat.add_sub_cancel_left]
            rw [h.drop, hspelling, List.take_left]
          · exact h.position.advance (h.drop.trans hspelling) hfeed
          · have hstands := h.advance hspelling hfeed
            rwa [hlength, ← Nat.add_assoc] at hstands

/-- One step takes a piece. -/
theorem Stands.next (h : Stands s before c) :
    ∃ p after, p.found = (next s.file c).1 ∧ Piece.Right s before after p ∧
      Stands s (before ++ p.bytes) (next s.file c).2 := by
  obtain ⟨blanks, hrest, hblanks, hhead, hskip⟩ := h.skip
  obtain ⟨spelling, after, hspelling, hfinds, hstands⟩ := hskip.lexeme hhead
  refine ⟨⟨blanks, spelling, _⟩, after, rfl, ⟨?_, hblanks, hspelling ▸ hhead, hfinds⟩, ?_⟩
  · rw [h.bytes, hrest, hspelling, Piece.bytes, List.append_assoc]
  · rw [Piece.bytes, ← List.append_assoc]
    exact hstands

/-! ### Any number of steps -/

theorem length_steps (file : String) (n : Nat) (c : Cursor) : (Lexer.steps file n c).length = n := by
  induction n generalizing c with
  | zero => rfl
  | succ n ih => rw [Lexer.steps, List.length_cons, ih]

/-- Successive steps take pieces that follow one another. -/
theorem Stands.steps (h : Stands s before c) (n : Nat) :
    ∃ ps : List Piece, steps s.file n c = ps.map (·.found) ∧ Taken s before ps := by
  induction n generalizing before c with
  | zero => exact ⟨[], rfl, .none before⟩
  | succ n ih =>
      obtain ⟨p, after, hfound, hright, hstands⟩ := h.next
      obtain ⟨ps, hsteps, htaken⟩ := ih hstands
      exact ⟨p :: ps, by rw [Lexer.steps, hsteps, List.map_cons, hfound], .more hright htaken⟩

theorem Taken.isPrefix {ps : List Piece} (h : Taken s before ps) (hbefore : before <+: s.bytes) :
    before ++ ps.flatMap (·.bytes) <+: s.bytes := by
  induction h with
  | none before => simpa using hbefore
  | @more before after p ps hright _ ih =>
      rw [List.flatMap_cons, ← List.append_assoc]
      exact ih ⟨after, by rw [hright.bytes, List.append_assoc]⟩

theorem Piece.Right.progress {after : Bytes} {p : Piece} (h : p.Right s before after) :
    1 ≤ p.bytes.length ∨ s.bytes.length ≤ (before ++ p.bytes).length := by
  have hfinds := h.finds
  rw [Piece.bytes, ← List.append_assoc]
  generalize p.spelling = spelling at hfinds ⊢
  generalize p.found = found at hfinds
  cases hfinds with
  | token hlongest =>
      have hpos := List.length_pos_iff.mpr hlongest.spells.ne_nil
      left
      rw [List.length_append]
      omega
  | illegal => exact .inl (by simp)
  | done hend =>
      right
      rw [List.append_nil]
      exact Nat.le_of_eq hend.symm

/-- Steps take all of a source, unless there are no more of them than bytes. -/
theorem Taken.exhausts {ps : List Piece} (h : Taken s before ps) (hbefore : before <+: s.bytes) :
    before.length + ps.length ≤ s.bytes.length ∨ before ++ ps.flatMap (·.bytes) = s.bytes := by
  induction h with
  | none before => exact .inl (by simpa using hbefore.length_le)
  | @more before after p ps hright hps ih =>
      have hnext : before ++ p.bytes <+: s.bytes := ⟨after, by rw [hright.bytes, List.append_assoc]⟩
      rw [List.flatMap_cons, ← List.append_assoc, List.length_cons]
      rcases hright.progress with hprogress | hend
      · refine (ih hnext).imp_left fun hle => ?_
        rw [List.length_append] at hle
        omega
      · have hall := hps.isPrefix hnext
        refine .inr (hall.eq_of_length_le ?_)
        rw [List.length_append]
        omega

end

/-! ### The end of a source -/

section
variable {file : String} {c : Cursor}

theorem next_done (hrest : c.skip.rest = []) :
    next file c = (.ok (token .eof [] (c.skip.position file)), c.skip) := by
  rw [next, lexeme, hrest]

/-- At the end, all steps find the end. -/
theorem steps_done (hrest : c.skip.rest = []) (n : Nat) :
    steps file n c = List.replicate n (.ok (token .eof [] (c.skip.position file))) := by
  induction n generalizing c with
  | zero => rfl
  | succ n ih =>
      have hskip : c.skip.skip = c.skip := by
        generalize c.skip = d at hrest
        obtain ⟨rest, offset, line, lineStart⟩ := d
        obtain rfl : rest = [] := hrest
        rfl
      rw [steps, next_done hrest, ih (by rw [hskip, hrest]), hskip, List.replicate_succ]

theorem rest_of_next_eof {t : Token} (h : (next file c).1 = .ok t) (ht : t.kind = .eof) : c.skip.rest = [] := by
  cases hrest : c.skip.rest with
  | nil => rfl
  | cons b rest => exact absurd ht (lexeme_proper hrest h).before

/-- Once the end was found, it is found forever. -/
theorem steps_eof {n i j : Nat} {t : Token} (hij : i ≤ j) (hj : j < n) (hi : (steps file n c)[i]? = some (.ok t))
    (ht : t.kind = .eof) : (steps file n c)[j]? = some (.ok t) := by
  induction n generalizing c i j with
  | zero => exact absurd hj (Nat.not_lt_zero j)
  | succ n ih =>
      cases i with
      | zero =>
          have hrest := rest_of_next_eof (Option.some.inj hi) ht
          rw [steps_done hrest, List.getElem?_replicate_of_lt (Nat.zero_lt_succ n)] at hi
          rw [steps_done hrest, List.getElem?_replicate_of_lt hj, hi]
      | succ i =>
          have hpos : 0 < j := Nat.lt_of_lt_of_le (Nat.zero_lt_succ i) hij
          obtain ⟨j, rfl⟩ := Nat.exists_eq_add_one_of_ne_zero (Nat.ne_of_gt hpos)
          rw [steps, List.getElem?_cons_succ] at hi ⊢
          exact ih (Nat.le_of_succ_le_succ hij) (Nat.lt_of_succ_lt_succ hj) hi

/-- The stream of tokens is what successive steps find up to the end or the first illegal byte. -/
theorem stream_steps (file : String) (c : Cursor) :
    ∃ l last, l.length = (stream file c).size ∧ steps file (l.length + 1) c = l.map .ok ++ [last] ∧
      (∀ t ∈ l, t.kind ≠ .eof) ∧
      ((∃ t, last = .ok t ∧ t.kind = .eof ∧ (stream file c).toList = .ok (l ++ [t])) ∨
        ∃ e, last = .error e ∧ (stream file c).toList = .error e) := by
  induction c using stream.induct file with
  | case1 c hrest =>
      rw [stream_done hrest]
      exact ⟨[], _, rfl, steps_done hrest 1, by simp, .inl ⟨_, rfl, rfl, rfl⟩⟩
  | case2 c b rest hrest e he =>
      rw [stream_fault (by rw [hrest]; simp) he]
      exact ⟨[], _, rfl, rfl, by simp, .inr ⟨e, he, rfl⟩⟩
  | case3 c b rest hrest t ht ih =>
      rw [stream_more (by rw [hrest]; simp) (Prod.ext ht rfl)]
      obtain ⟨l, last, hsize, hsteps, hkinds, hends⟩ := ih
      refine ⟨t :: l, last, ?_, ?_, ?_, ?_⟩
      · rw [List.length_cons, hsize, Tokens.size]
      · rw [List.length_cons, steps, hsteps, ht, List.map_cons, List.cons_append]
      · exact List.forall_mem_cons.mpr ⟨(lexeme_proper hrest ht).before, hkinds⟩
      · rcases hends with ⟨u, hlast, hu, hlist⟩ | ⟨e, hlast, hlist⟩
        · exact .inl ⟨u, hlast, hu, by rw [Tokens.toList, hlist]; rfl⟩
        · exact .inr ⟨e, hlast, by rw [Tokens.toList, hlist]; rfl⟩

end

end Lexer

namespace Source

open Lexer

/-- Any number of steps takes a source from left to right, in pieces that follow one another: blanks, and then the
longest token, an illegal byte or nothing at the end, each with its true positions. More steps than there are bytes take
all of it. Once the end was found, it is found forever. The tokens of a source are what the steps find up to the end or
to an illegal byte, and these are at most one more than there are bytes. -/
theorem reading_lossless (s : Source) :
    (∀ n, ∃ pieces : List Piece, s.steps n = pieces.map (·.found) ∧ Taken s [] pieces ∧
      (s.bytes.length < n → pieces.flatMap (·.bytes) = s.bytes)) ∧
    (∀ n i j t, i ≤ j → j < n → (s.steps n)[i]? = some (.ok t) → t.kind = .eof → (s.steps n)[j]? = some (.ok t)) ∧
    ∃ l last, l.length + 1 ≤ s.bytes.length + 1 ∧ s.steps (l.length + 1) = l.map .ok ++ [last] ∧
      (∀ t ∈ l, t.kind ≠ .eof) ∧
      ((∃ t, last = .ok t ∧ t.kind = .eof ∧ s.tokens.toList = .ok (l ++ [t])) ∨
        ∃ e, last = .error e ∧ s.tokens.toList = .error e) := by
  refine ⟨fun n => ?_, fun n i j t hij hj hi ht => steps_eof hij hj hi ht, ?_⟩
  · obtain ⟨pieces, hsteps, htaken⟩ := (stands_start s).steps n
    refine ⟨pieces, hsteps, htaken, fun hn => ?_⟩
    have hlength : pieces.length = n := by
      have hcount := congrArg List.length hsteps
      rw [List.length_map] at hcount
      rw [← hcount]
      exact length_steps s.file n s.cursor
    rcases htaken.exhausts (List.nil_prefix) with hle | hall
    · simp only [List.length_nil] at hle
      omega
    · exact hall
  · obtain ⟨l, last, hsize, hends⟩ := stream_steps s.file s.cursor
    refine ⟨l, last, ?_, hends⟩
    have hle : (stream s.file s.cursor).size ≤ s.bytes.length := size_stream_le s.file s.cursor
    omega

/-- A name, a line end, an exclamation mark on its own and a digit. -/
def brokenLine : Source := ⟨[97, 10, 32, 33, 49], "in"⟩

/-- Reading goes on after the illegal byte on the second line, and stays at the end. -/
theorem brokenLine_read :
    brokenLine.steps 3 =
      [.ok ⟨.ident, "a", ⟨0, 0, 0, 0, "in"⟩, ⟨1, 0, 0, 1, "in"⟩⟩, .error ⟨33, ⟨3, 2, 1, 1, "in"⟩⟩,
        .ok ⟨.int, "1", ⟨4, 2, 1, 2, "in"⟩, ⟨5, 2, 1, 3, "in"⟩⟩] ∧
    (∃ pieces : List Piece, brokenLine.steps 6 = pieces.map (·.found) ∧ Taken brokenLine [] pieces ∧
      pieces.flatMap (·.bytes) = brokenLine.bytes) ∧
    (brokenLine.steps 6)[5]? = some (.ok ⟨.eof, "", ⟨5, 2, 1, 3, "in"⟩, ⟨5, 2, 1, 3, "in"⟩⟩) := by
  obtain ⟨htaken, heof, -⟩ := reading_lossless brokenLine
  obtain ⟨pieces, hsteps, hpieces, hall⟩ := htaken 6
  exact ⟨rfl, ⟨pieces, hsteps, hpieces, hall (by decide)⟩, heof 6 3 5 _ (by decide) (by decide) rfl rfl⟩

end Source

end TierCalc
