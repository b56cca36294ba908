import TierCalc.Fallible
import TierCalc.Proofs.Diagnostic.Excerpt
import TierCalc.Proofs.Expr.Outcomes
import TierCalc.Proofs.Source.Reading

/-!
# Carets under syntax errors

A source that is no expression has a fault, and the report of it shows the line of source with carets under what is
wrong.

* `Source.Bears`: what reading finds at a position, from its first byte to its last. All tokens of a source, and the
  illegal byte that they stop at, are found where they say (`Source.tokens_sit`).
* `Parser.fault_sits`: a reading that fails blames one of these.
* `Source.LineAt`: the line of a source that an offset lies in.
-/

namespace TierCalc

open Lexer (Lexeme Finds Stands Piece)

/-! ### Where tokens are found -/

/-- Whether reading finds a token or an illegal byte in a source from one position to another. -/
def Source.Bears (s : Source) (start stop : Position) (found : Lexeme) : Prop :=
  ∃ n text after, start.Marks s n ∧ s.bytes.drop n = text ++ after ∧ Finds s n after text found ∧
    stop = start.advance text.length

/-- Whether the tokens of a stream, and the illegal byte that it stops at, are found in a source where they say. -/
def Tokens.Sit (s : Source) : Tokens → Prop
  | more t rest => s.Bears t.start t.stop (.ok t) ∧ rest.Sit s
  | done t => s.Bears t.start t.stop (.ok t)
  | fault e => s.Bears e.pos (e.pos.advance 1) (.error e)

namespace Lexer

variable {s : Source} {before after : Bytes} {p : Piece} {c : Cursor}

theorem Piece.Right.drop (h : p.Right s before after) :
    s.bytes.drop (before ++ p.blanks).length = p.spelling ++ after := by
  have hbytes : s.bytes = (before ++ p.blanks) ++ (p.spelling ++ after) := by
    rw [h.bytes, Piece.bytes]
    simp
  rw [hbytes, List.drop_left]

theorem Piece.Right.bears_illegal {e : LexError} (h : p.Right s before after) (hfound : p.found = .error e) :
    s.Bears e.pos (e.pos.advance 1) (.error e) := by
  have hdrop := h.drop
  have hfinds := h.finds
  rw [hfound] at hfinds
  generalize p.spelling = spelling at hfinds hdrop
  cases hfinds with
  | illegal hnone hpos => exact ⟨_, _, _, hpos, hdrop, .illegal hnone hpos, rfl⟩

theorem Piece.Right.bears_token {t : Token} (h : p.Right s before after) (hfound : p.found = .ok t)
    (hstop : t.stop = t.start.advance (Bytes.ofString t.literal).length) : s.Bears t.start t.stop (.ok t) := by
  have hdrop := h.drop
  have hfinds := h.finds
  rw [hfound] at hfinds
  generalize p.spelling = spelling at hfinds hdrop
  cases hfinds with
  | token hlongest hliteral hslice hstart hend =>
      refine ⟨_, _, _, hstart, hdrop, .token hlongest hliteral hslice hstart hend, ?_⟩
      rw [hstop, hliteral]
  | done hend hkind hliteral hstart hsame =>
      refine ⟨_, _, _, hstart, hdrop, .done hend hkind hliteral hstart hsame, ?_⟩
      rw [hsame]
      simp [Position.advance]

theorem stop_of_next {file : String} {t : Token} (h : (next file c).1 = .ok t) :
    t.stop = t.start.advance (Bytes.ofString t.literal).length := by
  rw [next] at h
  cases hrest : c.skip.rest with
  | nil =>
      rw [lexeme, hrest] at h
      obtain rfl := Except.ok.inj h
      have hempty : Bytes.ofString (Bytes.ascii []) = [] := Bytes.ofString_ascii (by simp)
      simp only [token, hempty]
  | cons b rest =>
      obtain ⟨kind, spelling, start, hspells, rfl⟩ := lexeme_eq_ok hrest h
      have hascii : Bytes.ofString (Bytes.ascii spelling) = spelling :=
        Bytes.ofString_ascii fun b hb => Nat.lt_trans (hspells.visible hb).2 (by decide)
      simp only [token, hascii]

theorem Stands.sit (h : Stands s before c) : (stream s.file c).Sit s := by
  induction c using stream.induct s.file generalizing before with
  | case1 c hrest =>
      rw [stream_done hrest]
      obtain ⟨p, after, hfound, hright, -⟩ := h.next
      have hnext : (Lexer.next s.file c).1 = .ok (token .eof [] (c.skip.position s.file)) := by rw [next_done hrest]
      exact hright.bears_token (hfound.trans hnext) (stop_of_next hnext)
  | case2 c b rest hrest e he =>
      rw [stream_fault (by rw [hrest]; simp) he]
      obtain ⟨p, after, hfound, hright, -⟩ := h.next
      exact hright.bears_illegal (hfound.trans he)
  | case3 c b rest hrest t ht ih =>
      rw [stream_more (by rw [hrest]; simp) (Prod.ext ht rfl)]
      obtain ⟨p, after, hfound, hright, hstands⟩ := h.next
      exact ⟨hright.bears_token (hfound.trans ht) (stop_of_next ht), ih hstands⟩

end Lexer

theorem Source.tokens_sit (s : Source) : s.tokens.Sit s := (Lexer.stands_start s).sit

/-! ### What a failed reading blames -/

namespace SyntaxFault

/-- The token, or the illegal byte, that a fault is about. -/
def lexeme? : SyntaxFault → Option Lexeme
  | illegal e => some (.error e)
  | cancelled => none
  | empty t | tooDeep t | noOperand t | outOfRange t | badTarget t _ | notCallable t | missing t _ _
  | trailing t => some (.ok t)

/-- Whether what a fault is about is found in a source where the fault points. -/
def Sits (s : Source) (f : SyntaxFault) : Prop := ∃ found, f.lexeme? = some found ∧ s.Bears f.span.1 f.span.2 found

end SyntaxFault

namespace Parser

/-- Streams, tokens and faults that are found in a source where they say. -/
def sitting (s : Source) : Regime where
  stream := Tokens.Sit s
  token t := s.Bears t.start t.stop (.ok t)
  fault := SyntaxFault.Sits s
  consume {ts} h := by
    unfold Tokens.consume
    split
    · exact .error ⟨_, rfl, h.2⟩
    · exact .ok h
    · exact .ok ⟨h, h⟩
    · exact .error ⟨_, rfl, h⟩
  peek {ts} h := by
    cases ts with
    | more t rest => exact .ok h.1
    | done t => exact .ok h
    | fault e => exact .error ⟨_, rfl, h⟩
  noOperand h := ⟨_, rfl, h⟩
  outOfRange h := ⟨_, rfl, h⟩
  badTarget _ h := ⟨_, rfl, h⟩
  notCallable h := ⟨_, rfl, h⟩
  missing _ _ h := ⟨_, rfl, h⟩
  trailing h := ⟨_, rfl, h⟩

variable {s : Source} {ts : Tokens}

theorem expression_sits (limit depth level : Nat) (h : ts.Sit s) :
    (sitting s).Keeps (expression limit depth level ts) := by
  induction depth generalizing level ts with
  | zero =>
      apply ((sitting s).consume h).bind
      rintro ⟨t, ts⟩ ⟨ht, -⟩
      exact .error ⟨_, rfl, ht⟩
  | succ depth ih =>
      apply ((sitting s).consume h).bind
      rintro ⟨t, ts⟩ ⟨ht, h⟩
      apply (operand_outcome (fun level _ h => ih level h) ht h).bind
      rintro ⟨left, ts⟩ h
      exact extendAll_outcome (fun level _ h => ih level h) limit level limit left h

/-- What a failed reading blames is found where the fault points, unless reading was cancelled. -/
theorem fault_sits {cancelled : Bool} {maxDepth : Int} {f : SyntaxFault} (h : ts.Sit s)
    (hf : whole cancelled maxDepth ts = .error f) : f = .cancelled ∨ f.Sits s := by
  have hconsume := (sitting s).consume h
  have hexpression := expression_sits ts.size maxDepth.toNat Token.Kind.lowest h
  unfold whole at hf
  rcases error_of_bind hf with hfault | ⟨⟨t, rest⟩, hread, hf⟩
  · exact .inr (hconsume.fault hfault)
  · obtain ⟨ht, -⟩ := hconsume.leaves hread
    dsimp only at hf
    split at hf
    · obtain rfl := Except.error.inj hf
      exact .inr ⟨_, rfl, ht⟩
    · split at hf
      · exact .inl (Except.error.inj hf).symm
      · rcases error_of_bind hf with hfault | ⟨⟨e, rest⟩, hread, hf⟩
        · exact .inr (hexpression.fault hfault)
        · rcases error_of_bind hf with hfault | ⟨_, -, hf⟩
          · exact .inr ((finish_outcome (hexpression.leaves hread)).fault hfault)
          · cases hf

end Parser

/-! ### The line of an offset -/

/-- The line of a source that an offset lies in: what stands between two line feeds, with the carriage returns at its
end apart. -/
structure Source.LineAt (s : Source) (n : Nat) (above line returns below : Bytes) : Prop where
  bytes : s.bytes = above ++ (line ++ returns) ++ below
  starts : above = [] ∨ above.getLast? = some 10
  ends : below = [] ∨ below.head? = some 10
  single : 10 ∉ line ++ returns
  tail : ∀ b ∈ returns, b = 13
  trimmed : line.getLast? ≠ some 13
  after : above.length ≤ n
  before : n ≤ (above ++ (line ++ returns)).length

theorem Source.dropReturns_append (raw : Bytes) :
    ∃ returns, raw = dropReturns raw ++ returns ∧ (∀ b ∈ returns, b = 13) ∧ (dropReturns raw).getLast? ≠ some 13 := by
  refine ⟨(raw.reverse.takeWhile (· == 13)).reverse, ?_, ?_, ?_⟩
  · rw [dropReturns, ← List.reverse_append, List.takeWhile_append_dropWhile, List.reverse_reverse]
  · intro b hb
    exact beq_iff_eq.mp (Lexer.mem_takeWhile (p := (· == 13)) (List.mem_reverse.mp hb))
  · rw [dropReturns, List.getLast?_reverse]
    intro hhead
    have hnot := List.head?_dropWhile_not (· == 13) raw.reverse
    rw [hhead] at hnot
    simp at hnot

/-- The line that starts where a position says is the one that the position lies in. -/
theorem Position.Marks.lineAt {s : Source} {n : Nat} {p : Position} (h : p.Marks s n) :
    ∃ above returns below, s.LineAt n above (s.line p.lineStart) returns below ∧ p.lineStart = above.length := by
  obtain ⟨above, current, htake, hstart, habove, hcurrent⟩ := h.lineStart
  have hn : n = (above ++ current).length := by
    rw [← htake, List.length_take, Nat.min_eq_left h.within]
  have hbytes : s.bytes = above ++ (current ++ s.bytes.drop n) := by
    rw [← List.append_assoc, ← htake, List.take_append_drop]
  have hdrop : s.bytes.drop above.length = current ++ s.bytes.drop n := by
    rw [hbytes, List.drop_left, ← hbytes]
  have hline : s.line p.lineStart = Source.dropReturns (current ++ (s.bytes.drop n).takeWhile (· != 10)) := by
    have hwithin := congrArg List.length hbytes
    rw [List.length_append] at hwithin
    have hinside : ¬ ((above.length : Int) < 0 ∨ (s.bytes.length : Int) < above.length) := by omega
    have hcurrent' : ∀ b ∈ current, (b != 10) = true := by
      intro b hb
      rw [bne_iff_ne]
      rintro rfl
      exact hcurrent hb
    rw [Source.line, hstart, if_neg hinside, Int.toNat_natCast, hdrop, List.takeWhile_append_of_pos hcurrent']
  obtain ⟨returns, hraw, hreturns, htrimmed⟩ :=
    Source.dropReturns_append (current ++ (s.bytes.drop n).takeWhile (· != 10))
  rw [← hline] at hraw htrimmed
  refine ⟨above, returns, (s.bytes.drop n).dropWhile (· != 10),
    ⟨?_, habove, ?_, ?_, hreturns, htrimmed, ?_, ?_⟩, hstart⟩
  · rw [← hraw, List.append_assoc, List.append_assoc, List.takeWhile_append_dropWhile]
    exact hbytes
  · have hnot := List.head?_dropWhile_not (· != 10) (s.bytes.drop n)
    generalize (s.bytes.drop n).dropWhile (· != 10) = below at hnot
    cases below with
    | nil => exact .inl rfl
    | cons b below => exact .inr (congrArg some (by simpa using hnot))
  · rw [← hraw, List.mem_append, not_or]
    refine ⟨hcurrent, fun hfeed => ?_⟩
    have hne := Lexer.mem_takeWhile hfeed
    simp at hne
  · rw [hn, List.length_append]
    exact Nat.le_add_right _ _
  · rw [← hraw, hn]
    simp

/-! ### Reports -/

namespace SyntaxError

variable {err : SyntaxError} {k : Nat}

theorem caretCount_report (hstop : err.stop = err.start.advance k) (hcolumn : 0 ≤ err.start.column) :
    err.report.caretCount = max 1 k := by
  simp only [report, Report.caretCount, hstop, Position.advance, Position.columnNumber, true_and]
  split_ifs <;> omega

/-- The report of an error whose line is not empty ends with that line and carets. -/
theorem report_underlines (hstop : err.stop = err.start.advance k) (hcolumn : 0 ≤ err.start.column)
    (hnumber : 0 ≤ err.start.line) (hline : err.line ≠ []) :
    Report.Underlines (err.report.render false) err.line err.start.column.toNat (max 1 k) := by
  obtain ⟨number, hnumber⟩ : ∃ number : Nat, err.start.lineNumber = number :=
    ⟨err.start.lineNumber.toNat, by rw [Position.lineNumber]; omega⟩
  have hexcerpt : err.report.excerpt = [⟨number, err.line, true⟩] := by
    simp [report, hline, hnumber]
  have hshown : err.report.column = err.start.column + 1 := rfl
  have hpositive : 0 < err.report.column := by omega
  have hunderlines := Report.render_underlines hexcerpt hnumber hpositive rfl rfl
  rwa [caretCount_report hstop hcolumn, hshown, Int.add_sub_cancel] at hunderlines

end SyntaxError

namespace Expr

theorem parse_eq_ofFault {s : Source} {o : ParseOptions} {err : SyntaxError} (h : parse s o = .error err)
    (hcancelled : err.fault ≠ .cancelled) :
    err.fault.Sits s ∧ err.line = s.line err.start.lineStart := by
  unfold parse at h
  split at h
  · cases h
  · rename_i f hf
    obtain rfl := Except.error.inj h
    rcases Parser.fault_sits s.tokens_sit hf with rfl | hsits
    · exact absurd rfl hcancelled
    · unfold SyntaxError.ofFault at hcancelled ⊢
      split
      · exact absurd rfl hcancelled
      · exact ⟨hsits, rfl⟩

/-- A syntax error is placed in its source, and what is wrong is the token or the illegal byte that reading finds there.
Its line is the one of the source that it starts in, without carriage returns at its end. Its report shows this line,
unless nothing is left of it, with carets under it from the first byte of what is wrong to the last, at least one. -/
theorem parse_error_underlined {s : Source} {o : ParseOptions} {err : SyntaxError} (h : parse s o = .error err)
    (hcancelled : err.fault ≠ .cancelled) :
    ∃ n found text after above returns below, err.start.Marks s n ∧
      err.fault.lexeme? = some found ∧ s.bytes.drop n = text ++ after ∧ Finds s n after text found ∧
      s.LineAt n above err.line returns below ∧ err.start.lineStart = above.length ∧
      (err.line = [] → err.report.excerpt = []) ∧
      (err.line ≠ [] →
        Report.Underlines (err.report.render false) err.line err.start.column.toNat (max 1 text.length)) := by
  obtain ⟨⟨found, hfound, n, text, after, hmarks, hdrop, hfinds, hstop⟩, hline⟩ := parse_eq_ofFault h hcancelled
  have hmarks : err.start.Marks s n := hmarks
  obtain ⟨above, returns, below, hlineAt, hstart⟩ := hmarks.lineAt
  rw [← hline] at hlineAt
  refine ⟨n, found, text, after, above, returns, below, hmarks, hfound, hdrop, hfinds, hlineAt, hstart, ?_, ?_⟩
  · intro hempty
    simp [SyntaxError.report, hempty]
  · intro hne
    have hcolumn : 0 ≤ err.start.column := by
      rw [hmarks.column, hmarks.offset, hstart]
      have hle := hlineAt.after
      omega
    have hnumber : 0 ≤ err.start.line := by
      rw [hmarks.line]
      omega
    exact SyntaxError.report_underlines hstop hcolumn hnumber hne

def brokenLineError : SyntaxError := ⟨.illegal ⟨33, ⟨3, 2, 1, 1, "in"⟩⟩, "in", [32, 33, 49]⟩

/-- The exclamation mark in the second line is underlined, one column from the bar. -/
theorem brokenLine_underlined :
    parse Source.brokenLine = .error brokenLineError ∧ brokenLineError.fault ≠ .cancelled ∧
      ∃ text after, Source.brokenLine.bytes.drop 3 = text ++ after ∧
        Finds Source.brokenLine 3 after text (.error ⟨33, ⟨3, 2, 1, 1, "in"⟩⟩) ∧
        Report.Underlines (brokenLineError.report.render false) [32, 33, 49] 1 (max 1 text.length) := by
  have htokens : Source.brokenLine.tokens = .more ⟨.ident, "a", ⟨0, 0, 0, 0, "in"⟩, ⟨1, 0, 0, 1, "in"⟩⟩
      (.fault ⟨33, ⟨3, 2, 1, 1, "in"⟩⟩) := by
    rw [Source.tokens, Lexer.stream_more (by decide) rfl, Lexer.stream_fault (by decide) rfl]
    decide
  have hparse : parse Source.brokenLine = .error brokenLineError := by
    rw [parse, htokens]
    rfl
  have hcancelled : brokenLineError.fault ≠ .cancelled := by simp [brokenLineError]
  obtain ⟨n, found, text, after, -, -, -, hmarks, hfound, hdrop, hfinds, -, -, -, hunderlines⟩ :=
    parse_error_underlined hparse hcancelled
  obtain rfl : 3 = n := Int.ofNat.inj hmarks.offset
  obtain rfl := Option.some.inj hfound
  exact ⟨hparse, hcancelled, text, after, hdrop, hfinds, hunderlines (by simp [brokenLineError])⟩

end Expr

end TierCalc
