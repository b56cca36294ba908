import Mathlib.Data.List.Basic
import TierCalc.Expr.Basic
import TierCalc.Proofs.Source.Reading

/-!
# What stands between two positions

* `Source.Gap`: nothing but blanks, and bytes that are named, stands between two positions.
* `Source.Matched`: every parenthesis between two positions has its partner there.
* `Position.Shows`: a text stands at a position, and it is a token there, to its end.
* `Tokens.ReadFrom`: a stream of tokens is what stands in a source from a position on, with blanks between the tokens.
  The tokens of a source are read from its start (`Source.tokens_readFrom`).
-/

namespace TierCalc

/-! ### Parentheses -/

namespace Bytes

theorem ofString_lparen : ofString "(" = [40] := by
  rw [ofString_eq]
  rfl

theorem ofString_rparen : ofString ")" = [41] := by
  rw [ofString_eq]
  rfl

theorem ofString_comma : ofString "," = [44] := by
  rw [ofString_eq]
  rfl

end Bytes

/-- Texts in which every parenthesis has its partner. -/
inductive Bytes.Balanced : Bytes → Prop where
  | nil : Balanced []
  | other {b : UInt8} (hopening : b ≠ 40) (hclosing : b ≠ 41) : Balanced [b]
  | group {bs : Bytes} (h : Balanced bs) : Balanced (40 :: (bs ++ [41]))
  | append {bs more : Bytes} (h : Balanced bs) (hmore : Balanced more) : Balanced (bs ++ more)

theorem Bytes.Balanced.of_forall {bs : Bytes} (h : ∀ b ∈ bs, b ≠ 40 ∧ b ≠ 41) : bs.Balanced := by
  induction bs with
  | nil => exact .nil
  | cons b bs ih =>
      rw [List.forall_mem_cons] at h
      exact .append (.other h.1.1 h.1.2) (ih h.2)

theorem Lexer.Spells.ne_paren {kind : Token.Kind} {bs : Bytes} (h : Spells kind bs) (hopening : kind ≠ .lparen)
    (hclosing : kind ≠ .rparen) : ∀ b ∈ bs, b ≠ 40 ∧ b ≠ 41 := by
  have hword {b : UInt8} (hb : isWord b = true) : b ≠ 40 ∧ b ≠ 41 := by
    constructor
    all_goals
      rintro rfl
      revert hb
      decide
  cases h with
  | int _ hds => exact fun b hb => hword (isWord_iff.mpr (.inr (hds b hb)))
  | word hb hbs => exact List.forall_mem_cons.mpr ⟨hword (isWord_iff.mpr (.inl hb)), fun c hc => hword (hbs c hc)⟩
  | sign _ hname =>
      have hall : kind.name.toList.all (fun c => c != '(' && c != ')') = true := by
        revert hopening hclosing
        cases kind <;> decide
      intro b hb
      have hmem : Char.ofNat b.toNat ∈ kind.name.toList := by
        rw [← hname, Bytes.toList_ascii]
        exact List.mem_map_of_mem hb
      have hchar := List.all_eq_true.mp hall _ hmem
      constructor
      all_goals
        rintro rfl
        exact absurd hchar (by decide)

/-! ### Between two positions -/

namespace Source

/-- The bytes of a source from one position to another. -/
def slice (s : Source) (p q : Position) : Bytes := s.bytes.extract p.offset.toNat q.offset.toNat

/-- Whether a position is not after another and nothing but blanks and bytes of a list stands between the two. -/
structure Gap (s : Source) (fill : Bytes) (p q : Position) : Prop where
  le : p.offset ≤ q.offset
  bytes : ∀ b ∈ s.slice p q, Lexer.Blank b ∨ b ∈ fill

/-- Whether a position is not after another and every parenthesis between the two has its partner there. -/
structure Matched (s : Source) (p q : Position) : Prop where
  le : p.offset ≤ q.offset
  balanced : (s.slice p q).Balanced

variable {s : Source} {fill : Bytes} {p q r : Position}

theorem slice_self (s : Source) (p : Position) : s.slice p p = [] := by
  simp [slice, List.extract_eq_take_drop]

theorem slice_append (hpq : p.offset ≤ q.offset) (hqr : q.offset ≤ r.offset) :
    s.slice p q ++ s.slice q r = s.slice p r := by
  have hpq := Int.toNat_le_toNat hpq
  have hqr := Int.toNat_le_toNat hqr
  simp only [slice, List.extract_eq_take_drop]
  have hlength : r.offset.toNat - p.offset.toNat
      = (q.offset.toNat - p.offset.toNat) + (r.offset.toNat - q.offset.toNat) := by omega
  rw [hlength, List.take_add, List.drop_drop, Nat.add_sub_cancel' hpq]

theorem Gap.refl (s : Source) (fill : Bytes) (p : Position) : s.Gap fill p p :=
  ⟨Int.le_refl _, by simp [slice_self]⟩

theorem Gap.trans (h : s.Gap fill p q) (h' : s.Gap fill q r) : s.Gap fill p r := by
  refine ⟨Int.le_trans h.le h'.le, ?_⟩
  rw [← slice_append h.le h'.le, List.forall_mem_append]
  exact ⟨h.bytes, h'.bytes⟩

theorem Gap.mono {fill' : Bytes} (h : s.Gap fill p q) (hfill : fill ⊆ fill') : s.Gap fill' p q :=
  ⟨h.le, fun b hb => (h.bytes b hb).imp_right (@hfill b)⟩

theorem Gap.of_blank (h : s.Gap [] p q) : s.Gap fill p q := h.mono (List.nil_subset fill)

theorem Matched.refl (s : Source) (p : Position) : s.Matched p p :=
  ⟨Int.le_refl _, by rw [slice_self]; exact .nil⟩

theorem Matched.trans (h : s.Matched p q) (h' : s.Matched q r) : s.Matched p r := by
  refine ⟨Int.le_trans h.le h'.le, ?_⟩
  rw [← slice_append h.le h'.le]
  exact .append h.balanced h'.balanced

theorem Gap.matched (h : s.Gap [] p q) : s.Matched p q := by
  refine ⟨h.le, .of_forall fun b hb => ?_⟩
  rcases h.bytes b hb with hblank | hfill
  · rcases hblank with rfl | rfl | rfl | rfl <;> decide
  · simp at hfill

end Source

/-! ### A text at a position -/

open TierCalc.Expr (after)

/-- Whether a text stands at a position of a source, where it is a token of a kind, to its end. -/
structure Position.Shows (s : Source) (kind : Token.Kind) (text : String) (p : Position) : Prop where
  marks : p.Marks s p.offset.toNat
  slice : s.slice p (after p text) = Bytes.ofString text
  longest : Lexer.Longest kind (Bytes.ofString text) (s.bytes.drop (after p text).offset.toNat)

namespace Position.Shows

variable {s : Source} {kind : Token.Kind} {text : String} {p q : Position}

theorem lt (h : p.Shows s kind text) : p.offset < (after p text).offset := by
  have hpos := List.length_pos_iff.mpr h.longest.spells.ne_nil
  rw [Bytes.length_ofString] at hpos
  simp only [after, advance]
  omega

theorem gap (h : p.Shows s kind text) {fill : Bytes} (hfill : Bytes.ofString text ⊆ fill) :
    s.Gap fill p (after p text) := by
  refine ⟨Int.le_of_lt h.lt, fun b hb => .inr ?_⟩
  rw [h.slice] at hb
  exact hfill hb

theorem matched (h : p.Shows s kind text) (hopening : kind ≠ .lparen) (hclosing : kind ≠ .rparen) :
    s.Matched p (after p text) := by
  refine ⟨Int.le_of_lt h.lt, ?_⟩
  rw [h.slice]
  exact .of_forall (h.longest.spells.ne_paren hopening hclosing)

/-- A pair of parentheses around a balanced text. -/
theorem group (hp : p.Shows s .lparen "(") (hq : q.Shows s .rparen ")") (h : s.Matched (after p "(") q) :
    s.Matched p (after q ")") := by
  have hle : p.offset ≤ q.offset := Int.le_trans (Int.le_of_lt hp.lt) h.le
  refine ⟨Int.le_trans hle (Int.le_of_lt hq.lt), ?_⟩
  rw [← Source.slice_append hle (Int.le_of_lt hq.lt), ← Source.slice_append (Int.le_of_lt hp.lt) h.le, hp.slice,
    hq.slice, Bytes.ofString_lparen, Bytes.ofString_rparen]
  exact .group h.balanced

theorem ascii_ofString (h : p.Shows s kind text) : Bytes.ascii (Bytes.ofString text) = text :=
  Bytes.ofString_inj.mp <| Bytes.ofString_ascii fun _ hb =>
    Nat.lt_trans (h.longest.spells.visible hb).2 (by decide)

theorem text_eq_name (h : p.Shows s kind text) (hkind : kind ∉ [.eof, .int, .ident, .cond]) : text = kind.name := by
  have hascii := h.ascii_ofString
  have hspells := h.longest.spells
  generalize Bytes.ofString text = bs at hascii hspells
  cases hspells with
  | int => simp at hkind
  | word _ _ hword =>
      unfold Token.Kind.ofWord at hword
      split at hword <;> simp [hword] at hkind
  | sign _ hname => exact hascii.symm.trans hname

theorem text_eq_if (h : p.Shows s .cond text) : text = "if" := by
  have hascii := h.ascii_ofString
  have hspells := h.longest.spells
  generalize Bytes.ofString text = bs at hascii hspells
  cases hspells with
  | word _ _ hword =>
      rw [hascii, Token.Kind.ofWord] at hword
      split at hword
      · rename_i hif
        exact beq_iff_eq.mp hif
      · cases hword
  | sign hkind => simp at hkind

end Position.Shows

/-! ### Tokens from a position on -/

/-- Whether a stream of tokens is what stands in a source from a position on. -/
inductive Tokens.ReadFrom (s : Source) : Position → Tokens → Prop where
  | more {p : Position} {t : Token} {rest : Tokens} (hgap : s.Gap [] p t.start)
      (ht : t.start.Shows s t.kind t.literal) (hrest : ReadFrom s (after t.start t.literal) rest) :
      ReadFrom s p (.more t rest)
  | done {p : Position} {t : Token} (ht : t.kind = .eof) : ReadFrom s p (.done t)
  | fault {p : Position} {e : LexError} : ReadFrom s p (.fault e)

theorem Tokens.ReadFrom.congr {s : Source} {p q : Position} {ts : Tokens} (hpq : p.offset = q.offset)
    (h : ReadFrom s p ts) : ReadFrom s q ts := by
  cases h with
  | more hgap ht hrest =>
      refine .more ⟨hpq ▸ hgap.le, ?_⟩ ht hrest
      simpa only [Source.slice, hpq] using hgap.bytes
  | done ht => exact .done ht
  | fault => exact .fault

namespace Lexer

variable {s : Source} {before after : Bytes} {p : Piece} {t : Token}

/-- A token that a step finds stands after blanks, and the next step starts at its end. -/
theorem Piece.Right.shows (h : p.Right s before after) (hfound : p.found = .ok t) (ht : t.kind ≠ .eof) :
    t.start.offset = (before ++ p.blanks).length ∧ t.start.Shows s t.kind t.literal ∧
      (Expr.after t.start t.literal).offset = (before ++ p.bytes).length := by
  have hfinds := h.finds
  have hbytes := h.bytes
  rw [Piece.bytes] at hbytes ⊢
  rw [hfound] at hfinds
  generalize p.spelling = spelling at hfinds hbytes ⊢
  cases hfinds with
  | done _ hkind => exact absurd hkind ht
  | token hlongest hliteral hslice hstart hstop =>
      have hoffset := hstart.offset
      have hend : (Expr.after t.start t.literal).offset = ((before ++ p.blanks ++ spelling).length : Nat) := by
        rw [List.length_append, ← hliteral, Bytes.length_ofString]
        simp [Expr.after, Position.advance, hoffset]
      have hsplit : s.bytes = (before ++ p.blanks) ++ (spelling ++ after) := by
        rw [hbytes]
        simp
      refine ⟨hoffset, ⟨?_, ?_, ?_⟩, by rw [hend, List.append_assoc]⟩
      · rw [hoffset]
        exact hstart
      · have hlength : (before ++ p.blanks ++ spelling).length - (before ++ p.blanks).length = spelling.length := by
          rw [List.length_append, Nat.add_sub_cancel_left]
        rw [Source.slice, hend, hoffset, Int.toNat_natCast, Int.toNat_natCast, List.extract_eq_take_drop, hlength,
          hsplit, List.drop_left, List.take_left, hliteral]
      · rw [hend, Int.toNat_natCast, hsplit, ← List.append_assoc, List.drop_left, hliteral]
        exact hlongest

/-- The stream of tokens is read from where the cursor stands. -/
theorem Stands.readFrom {c : Cursor} (h : Stands s before c) :
    Tokens.ReadFrom s (c.position s.file) (stream s.file c) := by
  induction c using stream.induct s.file generalizing before with
  | case1 c hrest =>
      rw [stream_done hrest]
      exact .done rfl
  | case2 c b rest hrest e he =>
      rw [stream_fault (by rw [hrest]; simp) he]
      exact .fault
  | case3 c b rest hrest t ht ih =>
      rw [stream_more (by rw [hrest]; simp) (Prod.ext ht rfl)]
      obtain ⟨p, after, hfound, hright, hstands⟩ := h.next
      obtain ⟨hstart, hshows, hstop⟩ := hright.shows (hfound.trans ht) (lexeme_proper hrest ht).before
      have hoffset := h.position.offset
      refine .more ⟨?_, ?_⟩ hshows ((ih hstands).congr ?_)
      · rw [hoffset, hstart, List.length_append]
        omega
      · have hblanks : s.slice (c.position s.file) t.start = p.blanks := by
          rw [Source.slice, hoffset, hstart, Int.toNat_natCast, Int.toNat_natCast, List.extract_eq_take_drop,
            hright.bytes, List.drop_left, List.length_append, Nat.add_sub_cancel_left, Piece.bytes, List.append_assoc,
            List.take_left]
        rw [hblanks]
        exact fun b hb => .inl (hright.blanks b hb)
      · rw [hstands.position.offset, hstop]

end Lexer

theorem Source.tokens_readFrom (s : Source) : s.tokens.ReadFrom s (s.cursor.position s.file) :=
  (Lexer.stands_start s).readFrom

end TierCalc
