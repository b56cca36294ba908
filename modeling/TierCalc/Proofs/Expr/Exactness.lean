import TierCalc.Proofs.Expr.Completeness

/-!
# The language that is read

A source is read as a tree exactly if its tokens are a sentence of the grammar for this tree and its literals are in the
range of the 64-bit integers. The nesting of an expression is never deeper than the source is long, so a limit of this
size takes nothing away.
-/

namespace TierCalc

open Grammar

/-! ### Literals -/

namespace Parser

theorem literalValue?_eq_some {s : String} {v : Int64} :
    literalValue? s = some v ↔ InRange s ∧ word? s = some v := by
  unfold literalValue? InRange word?
  cases Numeral.nat? 10 s with
  | none => simp
  | some n => simp

variable {p : Phrase} {ws : List Terminal} {e : Expr}

theorem derives_literalValue :
    Derives literalValue? p ws e ↔ (∀ s, .int s ∈ ws → InRange s) ∧ Derives word? p ws e := by
  constructor
  · intro h
    refine ⟨fun s hs => ?_, h.revalue fun s _ v hv => (literalValue?_eq_some.mp hv).2⟩
    obtain ⟨v, hv⟩ := Option.isSome_iff_exists.mp (h.value_isSome hs)
    exact (literalValue?_eq_some.mp hv).1
  · rintro ⟨hrange, h⟩
    exact h.revalue fun s hs v hv => literalValue?_eq_some.mpr ⟨hrange s hs, hv⟩

theorem sentence_literalValue :
    Sentence literalValue? ws e ↔ (∀ s, .int s ∈ ws → InRange s) ∧ Sentence word? ws e := by
  constructor
  · intro h
    cases h with
    | plain h =>
        obtain ⟨hrange, h⟩ := derives_literalValue.mp h
        exact ⟨hrange, .plain h⟩
    | closed h =>
        obtain ⟨hrange, h⟩ := derives_literalValue.mp h
        exact ⟨fun s hs => hrange s (by simpa using hs), .closed h⟩
  · rintro ⟨hrange, h⟩
    cases h with
    | plain h => exact .plain (derives_literalValue.mpr ⟨hrange, h⟩)
    | closed h => exact .closed (derives_literalValue.mpr ⟨fun s hs => hrange s (by simp [hs]), h⟩)

/-! ### Whole streams -/

open Tokens (prepend)

theorem finish_eq_ok {ts : Tokens} (hts : ts.Proper) (h : finish ts = .ok ()) :
    ∃ l last, ts = prepend l (.done last) ∧ (l = [] ∨ ∃ t, t.kind = .semicolon ∧ l = [t]) := by
  cases ts with
  | fault e => cases h
  | done last => exact ⟨[], last, rfl, .inl rfl⟩
  | more t rest =>
      by_cases ht : t.kind = .semicolon
      · cases rest with
        | fault e => simp [finish, ht, Tokens.consume, bind, Except.bind, Functor.map, Except.map] at h
        | done last => exact ⟨[t], last, rfl, .inr ⟨t, ht, rfl⟩⟩
        | more t' rest =>
            have ht' : t'.kind ≠ .eof := hts.2.1.before
            simp [finish, ht, ht', Tokens.consume, Tokens.peek, bind, Except.bind, Functor.map, Except.map, throw_error]
              at h
      · have ht' : t.kind ≠ .eof := hts.1.before
        simp [finish, ht, ht', Tokens.peek, bind, Except.bind, pure, Except.pure, throw_error] at h

/-- A stream that is read has an expression, and then nothing but what finishes it. -/
theorem whole_eq_ok {cancelled : Bool} {maxDepth : Int} {ts : Tokens} (h : whole cancelled maxDepth ts = .ok e) :
    ∃ rest, expression ts.size maxDepth.toNat Token.Kind.lowest ts = .ok (e, rest) ∧ finish rest = .ok () := by
  unfold whole at h
  obtain ⟨_, _, h⟩ := ok_of_bind h
  dsimp only at h
  split at h
  · cases h
  split at h
  · cases h
  obtain ⟨⟨e', rest⟩, he, h⟩ := ok_of_bind h
  obtain ⟨_, hfinish, h⟩ := ok_of_bind h
  cases h
  exact ⟨rest, he, hfinish⟩

/-- A stream that is read as an expression is a sentence. -/
theorem whole_sentence {cancelled : Bool} {maxDepth : Int} {ts : Tokens} (hts : ts.Proper)
    (h : whole cancelled maxDepth ts = .ok e) :
    ∃ l last, ts = prepend l (.done last) ∧ Sentence literalValue? (l.map .ofToken) e.unplaced := by
  obtain ⟨rest, he, hfinish⟩ := whole_eq_ok h
  rw [← expressionBy_literalValue] at he
  obtain ⟨l, rfl, hd, hrest, -⟩ := expressionBy_faithful literalValue? _ _ (Nat.le_refl 1) ⟨hts, Nat.le_refl _⟩ he
  obtain ⟨l', last, rfl, rfl | ⟨t, ht, rfl⟩⟩ := finish_eq_ok hrest.proper hfinish
  · exact ⟨l, last, rfl, .plain hd⟩
  · refine ⟨l ++ [t], last, (Tokens.prepend_append l [t] _).symm, ?_⟩
    have hsemicolon : Terminal.ofToken t = .semicolon := by rw [Terminal.ofToken, ht]
    rw [List.map_append, List.map_singleton, hsemicolon]
    exact .closed hd

theorem whole_of_derives (hd : Derives literalValue? .whole ws e) {maxDepth : Int} {l : List Token} {rest : Tokens}
    (hl : l.map .ofToken = ws) (hproper : ∀ t ∈ l, t.Proper) (hdepth : l.length ≤ maxDepth.toNat) (hrest : rest.Clean)
    (hnext : rest.kind.level = 1) (hfinish : finish rest = .ok ()) :
    ∃ e', e'.unplaced = e ∧ whole false maxDepth (prepend l rest) = .ok e' := by
  have hreadable := readable_of_derives hd
  have hwritten : Written l ws := ⟨hl, fun t ht => (hproper t ht).spelled⟩
  obtain ⟨e', he, hread⟩ := hreadable.before (prepend l rest).size maxDepth.toNat hwritten hrest hnext hdepth
    (by rw [Tokens.size_prepend]; omega)
  rw [expressionBy_literalValue] at hread
  refine ⟨e', he, ?_⟩
  obtain ⟨w, vs, rfl, -⟩ := hreadable.starts
  obtain ⟨t, l', rfl, -⟩ := hwritten.cons
  have ht : t.kind ≠ .eof := (hproper t List.mem_cons_self).before
  rw [whole, Tokens.prepend_cons, bind_of_ok (Tokens.consume_more (hrest.prepend l'))]
  dsimp only
  rw [if_neg ht, if_neg Bool.false_ne_true]
  exact (bind_of_ok hread _).trans (bind_of_ok hfinish _)

/-- A sentence is read as its expression, if it may be nested as deeply as it has tokens. -/
theorem whole_of_sentence {maxDepth : Int} {l : List Token} {last : Token} (hl : ∀ t ∈ l, t.Proper)
    (hlast : last.kind = .eof) (hdepth : l.length ≤ maxDepth.toNat) (h : Sentence literalValue? (l.map .ofToken) e) :
    ∃ e', e'.unplaced = e ∧ whole false maxDepth (prepend l (.done last)) = .ok e' := by
  generalize hws : l.map Terminal.ofToken = ws at h
  cases h with
  | plain hd =>
      refine whole_of_derives hd hws hl hdepth (Tokens.clean_done last) ?_ ?_
      · rw [Tokens.kind, hlast]
        rfl
      · simp [finish, Tokens.kind, hlast, pure, Except.pure, bind, Except.bind]
  | closed hd =>
      obtain ⟨l₁, l₂, rfl, hl₁, hl₂⟩ := List.map_eq_append_iff.mp hws
      obtain ⟨t, rfl, ht⟩ := List.map_eq_singleton_iff.mp hl₂
      have hkind : t.kind = .semicolon := kind_of_terminal ht
      rw [Tokens.prepend_append]
      refine whole_of_derives hd hl₁ (fun t ht => hl t (List.mem_append_left _ ht)) ?_ (Tokens.clean_more t _) ?_ ?_
      · rw [List.length_append] at hdepth
        omega
      · rw [Tokens.prepend_cons, Tokens.kind_more, hkind]
        rfl
      · simp [finish, Tokens.kind, hkind, hlast, Tokens.consume, pure, Except.pure, bind, Except.bind, Functor.map,
          Except.map]

end Parser

namespace Expr

theorem parse_eq_ok {s : Source} {o : ParseOptions} {e : Expr} :
    parse s o = .ok e ↔ Parser.whole o.cancelled o.maxDepth s.tokens = .ok e := by
  unfold parse
  cases Parser.whole o.cancelled o.maxDepth s.tokens <;> simp

/-- A source is read as a tree, up to positions, exactly if it has no illegal bytes, its literals are below `2 ^ 63`,
and its tokens before the end are a sentence that spells the tree; and no sequence of terminals spells two trees. -/
theorem parse_iff_sentence (s : Source) {maxDepth : Int} (hdepth : (s.bytes.length : Int) ≤ maxDepth) :
    (∀ tree : Expr,
      (∃ e, parse s { maxDepth := maxDepth, cancelled := false } = .ok e ∧ e.unplaced = tree) ↔
        ∃ tokens last, s.tokens.toList = .ok (tokens ++ [last]) ∧ (∀ t ∈ tokens, t.kind = .int → InRange t.literal) ∧
          Sentence word? (tokens.map .ofToken) tree) ∧
    ∀ (ws : List Terminal) (tree tree' : Expr), Sentence word? ws tree → Sentence word? ws tree' → tree = tree' := by
  have hproper : s.tokens.Proper := Lexer.stream_proper s.file s.cursor
  refine ⟨fun tree => ⟨?_, ?_⟩, fun _ _ _ h h' => sentence_unique h h'⟩
  · rintro ⟨e, he, rfl⟩
    obtain ⟨tokens, last, htokens, h⟩ := Parser.whole_sentence hproper (parse_eq_ok.mp he)
    obtain ⟨hrange, h⟩ := Parser.sentence_literalValue.mp h
    refine ⟨tokens, last, Tokens.toList_eq_ok_iff.mpr htokens, ?_, h⟩
    intro t ht hint
    exact hrange t.literal (List.mem_map.mpr ⟨t, ht, Terminal.ofToken_eq_int.mpr ⟨hint, rfl⟩⟩)
  · rintro ⟨tokens, last, htokens, hrange, h⟩
    rw [Tokens.toList_eq_ok_iff] at htokens
    have hlength : tokens.length ≤ maxDepth.toNat := by
      have hsize : s.tokens.size ≤ s.bytes.length := Lexer.size_stream_le s.file s.cursor
      rw [htokens, Tokens.size_prepend] at hsize
      omega
    rw [htokens] at hproper
    obtain ⟨htoken, hlast⟩ := hproper.of_prepend
    have hsentence : Sentence Parser.literalValue? (tokens.map .ofToken) tree := by
      refine Parser.sentence_literalValue.mpr ⟨fun literal hmem => ?_, h⟩
      obtain ⟨t, ht, hterminal⟩ := List.mem_map.mp hmem
      obtain ⟨hint, rfl⟩ := Terminal.ofToken_eq_int.mp hterminal
      exact hrange t ht hint
    obtain ⟨e, he, hwhole⟩ := Parser.whole_of_sentence htoken hlast hlength hsentence
    exact ⟨e, parse_eq_ok.mpr (htokens ▸ hwhole), he⟩

/-! ### A call of a name in parentheses -/

def groupedCall : Source := ⟨[40, 102, 41, 40, 45, 50, 41, 59], ""⟩

/-- A token on the first line. -/
def tokenAt (n : Int) (kind : Token.Kind) (literal : String) : Token :=
  ⟨kind, literal, { offset := n, column := n }, { offset := n + literal.length, column := n + literal.length }⟩

def groupedCallTokens : List Token :=
  [tokenAt 0 .lparen "(", tokenAt 1 .ident "f", tokenAt 2 .rparen ")", tokenAt 3 .lparen "(", tokenAt 4 .minus "-",
   tokenAt 5 .int "2", tokenAt 6 .rparen ")", tokenAt 7 .semicolon ";"]

/-- A call with an argument below zero. -/
def groupedCallTree : Expr :=
  .call default "f" default
    [.binary (.int default "0" 0) default Operator.subtract.number (.int default "2" 2)] default

theorem groupedCall_tokens : groupedCall.tokens.toList = .ok (groupedCallTokens ++ [tokenAt 8 .eof ""]) := by
  rw [Source.tokens, Lexer.stream_more (by decide) rfl, Lexer.stream_more (by decide) rfl,
    Lexer.stream_more (by decide) rfl, Lexer.stream_more (by decide) rfl, Lexer.stream_more (by decide) rfl,
    Lexer.stream_more (by decide) rfl, Lexer.stream_more (by decide) rfl, Lexer.stream_more (by decide) rfl,
    Lexer.stream_done (by decide)]
  decide

theorem groupedCall_sentence : Sentence word? (groupedCallTokens.map .ofToken) groupedCallTree := by
  have hargument : Derives word? .whole [.op .subtract, .int "2"]
      (.binary (.int default "0" 0) default Operator.subtract.number (.int default "2" 2)) :=
    Derives.widen (m := 2) (n := 7) (.negated (.unsigned (.uncalled (.int (by decide))))) (by decide)
  have hcall := Derives.call [([.op .subtract, .int "2"], _)] (.group (.name "f"))
    (List.forall_mem_singleton.mpr hargument)
  exact .closed (Derives.widen (m := 2) (n := 7) (.unsigned hcall) (by decide))

theorem groupedCall_parsed :
    (groupedCall.bytes.length : Int) ≤ 8 ∧
      ∃ e, parse groupedCall { maxDepth := 8, cancelled := false } = .ok e ∧ e.unplaced = groupedCallTree := by
  have hlength : (groupedCall.bytes.length : Int) ≤ 8 := by decide
  refine ⟨hlength, ((parse_iff_sentence groupedCall hlength).1 groupedCallTree).mpr ?_⟩
  refine ⟨groupedCallTokens, tokenAt 8 .eof "", groupedCall_tokens, ?_, groupedCall_sentence⟩
  intro t ht hint
  have hliteral : ∀ t ∈ groupedCallTokens, t.kind = .int → t.literal = "2" := by decide
  rw [hliteral t ht hint]
  exact ⟨2, by decide, by decide⟩

end Expr

end TierCalc
