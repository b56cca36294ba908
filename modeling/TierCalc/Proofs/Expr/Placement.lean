import Mathlib.Data.List.Basic
import TierCalc.Fallible
import TierCalc.Proofs.Expr.Canonical
import TierCalc.Proofs.Source.Passages

/-!
# Where a tree stands in its source

The positions of a tree that is read are those of the text it is read from. `Located` says this of every node: names and
numbers stand where the node says, an operator stands between its operands, and the parts of a call or a conditional
stand in order between its parentheses, which are partners. Grouping parentheses and the zero before a leading minus
have no place of their own in a tree. So what a tree occupies is more than its text by blanks and parentheses
(`Occupies`), and each reader keeps this.
-/

namespace TierCalc

open TierCalc.Expr (after)

namespace Expr

/-- Whether trees stand in order between two positions, none of them empty, with nothing but blanks, commas and
parentheses around them. -/
inductive InOrder (s : Source) (q : Position) : Position → List Expr → Prop where
  | nil {p : Position} (hgap : s.Gap [41] p q) : InOrder s q p []
  | cons {p : Position} {a : Expr} {rest : List Expr} (hgap : s.Gap [41, 44, 40] p a.pos)
      (hlt : a.pos.offset < a.stop.offset) (hrest : InOrder s q a.stop rest) : InOrder s q p (a :: rest)

/-- Whether two positions are those of a pair of parentheses with trees in order between them. -/
structure Enclosed (s : Source) (lp : Position) (parts : List Expr) (rp : Position) : Prop where
  opening : lp.Shows s .lparen "("
  closing : rp.Shows s .rparen ")"
  partners : s.Matched (after lp "(") rp
  parts : InOrder s rp (after lp "(") parts

/-- Whether the positions of all nodes of a tree are those of the text that they name. Only the zero of a leading minus
is not in the text: its position is that of the minus. -/
inductive Located (s : Source) : Expr → Prop where
  | int {p : Position} {literal : String} {v : Int64} (hliteral : p.Shows s .int literal)
      (hvalue : Parser.literalValue? literal = some v) : Located s (.int p literal v)
  | ident {p : Position} {x : String} (hname : p.Shows s .ident x) : Located s (.ident p x)
  | negated {p : Position} {r : Expr} (hminus : p.Shows s .minus "-") (hright : s.Gap [40] (after p "-") r.pos)
      (hr : Located s r) : Located s (.binary (.int p "0" 0) p Operator.subtract.number r)
  | binary {l : Expr} {p : Position} {o : UInt8} {r : Expr} {kind : Token.Kind}
      (hsymbol : p.Shows s kind (Operator.symbolOf o)) (hleft : s.Gap [41] l.stop p)
      (hright : s.Gap [40] (after p (Operator.symbolOf o)) r.pos) (hl : Located s l) (hr : Located s r) :
      Located s (.binary l p o r)
  | assign {p : Position} {x : String} {q : Position} {v : Expr} (hname : p.Shows s .ident x)
      (hequals : q.Shows s .assign "=") (hleft : s.Gap [41] (after p x) q) (hright : s.Gap [40] (after q "=") v.pos)
      (hv : Located s v) : Located s (.assign p x q v)
  | call {p : Position} {x : String} {lp rp : Position} {args : List Expr} (hname : p.Shows s .ident x)
      (hleft : s.Gap [41] (after p x) lp) (henclosed : Enclosed s lp args rp) (hargs : ∀ a ∈ args, Located s a) :
      Located s (.call p x lp args rp)
  | cond {p lp rp : Position} {c y n : Expr} (hkeyword : p.Shows s .cond "if") (hleft : s.Gap [] (after p "if") lp)
      (henclosed : Enclosed s lp [c, y, n] rp) (hc : Located s c) (hy : Located s y) (hn : Located s n) :
      Located s (.cond p lp c y n rp)

/-- Whether a tree stands between two positions, with nothing but blanks and partners of parentheses around it. -/
structure Occupies (s : Source) (p : Position) (e : Expr) (q : Position) : Prop where
  before : s.Gap [40] p e.pos
  lt : e.pos.offset < e.stop.offset
  after : s.Gap [41] e.stop q
  matched : s.Matched p q
  located : e.Located s

section
variable {s : Source} {p p' q q' : Position} {e a : Expr} {args : List Expr}

theorem Occupies.of_blank (h : Occupies s p e q) (hp : s.Gap [] p' p) : Occupies s p' e q :=
  { h with before := hp.of_blank.trans h.before, matched := hp.matched.trans h.matched }

theorem InOrder.before (h : InOrder s q p args) (hp : s.Gap [41] p' p) : InOrder s q p' args := by
  cases h with
  | nil hgap => exact .nil (hp.trans hgap)
  | cons hgap hlt hrest => exact .cons ((hp.mono (by simp)).trans hgap) hlt hrest

theorem InOrder.after (h : InOrder s q p args) (hq : s.Gap [41] q q') : InOrder s q' p args := by
  induction h with
  | nil hgap => exact .nil (hgap.trans hq)
  | cons hgap hlt _ ih => exact .cons hgap hlt ih

/-- A tree stands before those that follow it. -/
theorem Occupies.inOrder (ha : Occupies s p a q) (hp : s.Gap [41, 44, 40] p' p) (h : InOrder s q' q args) :
    InOrder s q' p' (a :: args) :=
  .cons (hp.trans (ha.before.mono (by simp))) ha.lt (h.before ha.after)

theorem Enclosed.matched {lp rp : Position} (h : Enclosed s lp args rp) : s.Matched lp (Expr.after rp ")") :=
  h.opening.group h.closing h.partners

end

end Expr

theorem Operator.symbol_of_ofSymbol? {text : String} {o : Operator} (h : ofSymbol? text = some o) :
    o.symbol = text := by
  unfold ofSymbol? at h
  have hfound := List.find?_some h
  exact beq_iff_eq.mp hfound

theorem Token.Kind.one_le_level (k : Token.Kind) : 1 ≤ k.level := by
  cases k <;> decide

namespace Parser

open TierCalc.Expr (InOrder Enclosed Located Occupies)
open Tokens (ReadFrom)

variable {s : Source} {p q : Position} {t : Token} {ts rest : Tokens}

theorem consume_shows (hts : ReadFrom s p ts) (h : ts.consume = .ok (t, rest)) (ht : t.kind ≠ .eof) :
    s.Gap [] p t.start ∧ t.start.Shows s t.kind t.literal ∧ ReadFrom s (after t.start t.literal) rest := by
  cases hts with
  | @more _ u tail hgap hshows hrest =>
      cases tail with
      | fault => cases h
      | more | done =>
          cases h
          exact ⟨hgap, hshows, hrest⟩
  | done hkind =>
      cases h
      exact absurd hkind ht
  | fault => cases h

theorem consume_sign {k : Token.Kind} (hts : ReadFrom s p ts) (hkind : ts.kind = k)
    (hk : k ∉ [.eof, .int, .ident, .cond]) (h : ts.consume = .ok (t, rest)) :
    s.Gap [] p t.start ∧ t.start.Shows s k k.name ∧ ReadFrom s (after t.start k.name) rest := by
  obtain rfl : t.kind = k := (Tokens.kind_of_consume h).symm.trans hkind
  obtain ⟨hgap, hshows, hrest⟩ := consume_shows hts h (by rintro heof; simp [heof] at hk)
  have hliteral : t.literal = t.kind.name := hshows.text_eq_name hk
  rw [hliteral] at hshows hrest
  exact ⟨hgap, hshows, hrest⟩

theorem expect_shows {wanted : Token.Kind} {within : Construct} (hts : ReadFrom s p ts)
    (hwanted : wanted ∉ [.eof, .int, .ident, .cond]) (h : expect wanted within ts = .ok (t, rest)) :
    s.Gap [] p t.start ∧ t.start.Shows s wanted wanted.name ∧ ReadFrom s (after t.start wanted.name) rest := by
  unfold expect at h
  split at h
  · rename_i hkind
    exact consume_sign hts hkind hwanted h
  · obtain ⟨_, _, h⟩ := ok_of_bind h
    cases h

section
variable {inner : Nat → Tokens → Except SyntaxFault (Expr × Tokens)}

/-- What a reader of each level gives stands in the source from where it starts reading to where it stops. -/
def Locates (s : Source) (inner : Nat → Tokens → Except SyntaxFault (Expr × Tokens)) : Prop :=
  ∀ {level : Nat} {p : Position} {ts : Tokens} {e : Expr} {rest : Tokens}, 1 ≤ level →
    ReadFrom s p ts → inner level ts = .ok (e, rest) → ∃ q, Occupies s p e q ∧ ReadFrom s q rest

theorem comma_between (hgap : s.Gap [] p q) (hcomma : q.Shows s .comma ",") :
    s.Gap [41, 44, 40] p (after q ",") ∧ s.Matched p (after q ",") := by
  constructor
  · apply hgap.of_blank.trans
    apply hcomma.gap
    rw [Bytes.ofString_comma]
    simp
  · exact hgap.matched.trans (hcomma.matched (by decide) (by decide))

theorem conditional_located (hinner : Locates s inner) (ht : t.start.Shows s .cond "if")
    (hts : ReadFrom s (after t.start "if") ts) {e : Expr} (h : conditional inner t ts = .ok (e, rest)) :
    ∃ q, Occupies s t.start e q ∧ ReadFrom s q rest := by
  unfold conditional at h
  obtain ⟨⟨lp, ts₁⟩, hlp, h⟩ := ok_of_bind h
  obtain ⟨⟨c, ts₂⟩, hc, h⟩ := ok_of_bind h
  obtain ⟨⟨c₁, ts₃⟩, hc₁, h⟩ := ok_of_bind h
  obtain ⟨⟨y, ts₄⟩, hy, h⟩ := ok_of_bind h
  obtain ⟨⟨c₂, ts₅⟩, hc₂, h⟩ := ok_of_bind h
  obtain ⟨⟨n, ts₆⟩, hn, h⟩ := ok_of_bind h
  obtain ⟨⟨rp, ts₇⟩, hrp, h⟩ := ok_of_bind h
  cases h
  obtain ⟨glp, slp, hts⟩ := expect_shows hts (by decide) hlp
  obtain ⟨q₁, oc, hts⟩ := hinner (by decide) hts hc
  obtain ⟨gc₁, sc₁, hts⟩ := expect_shows hts (by decide) hc₁
  obtain ⟨q₂, oy, hts⟩ := hinner (by decide) hts hy
  obtain ⟨gc₂, sc₂, hts⟩ := expect_shows hts (by decide) hc₂
  obtain ⟨q₃, on, hts⟩ := hinner (by decide) hts hn
  obtain ⟨grp, srp, hts⟩ := expect_shows hts (by decide) hrp
  obtain ⟨hbetween₁, hcomma₁⟩ := comma_between gc₁ sc₁
  obtain ⟨hbetween₂, hcomma₂⟩ := comma_between gc₂ sc₂
  have henclosed : Enclosed s lp.start [c, y, n] rp.start :=
    { opening := slp
      closing := srp
      partners := oc.matched.trans (hcomma₁.trans (oy.matched.trans (hcomma₂.trans (on.matched.trans grp.matched))))
      parts := by
        apply oc.inOrder (.refl ..)
        apply oy.inOrder hbetween₁
        apply on.inOrder hbetween₂
        exact .nil grp.of_blank }
  have hparens : s.Matched (after t.start "if") (after rp.start ")") := glp.matched.trans henclosed.matched
  refine ⟨after rp.start ")", ?_, hts⟩
  exact
    { before := .refl ..
      lt := Int.lt_of_lt_of_le ht.lt hparens.le
      after := .refl ..
      matched := (ht.matched (by decide) (by decide)).trans hparens
      located := .cond ht glp henclosed oc.located oy.located on.located }

/-- An operand stands where its first token starts. -/
theorem operand_located (hinner : Locates s inner) (ht : t.start.Shows s t.kind t.literal)
    (hts : ReadFrom s (after t.start t.literal) ts) {e : Expr} (h : operand inner t ts = .ok (e, rest)) :
    ∃ q, Occupies s t.start e q ∧ ReadFrom s q rest := by
  unfold operand at h
  split at h
  · rename_i hk
    cases h
    refine ⟨_, ?_, hts⟩
    have hmatched := ht.matched (by simp [hk]) (by simp [hk])
    exact ⟨.refl .., ht.lt, .refl .., hmatched, .ident (hk ▸ ht)⟩
  · rename_i hk
    split at h
    · rename_i v hv
      cases h
      refine ⟨_, ?_, hts⟩
      have hmatched := ht.matched (by simp [hk]) (by simp [hk])
      exact ⟨.refl .., ht.lt, .refl .., hmatched, .int (hk ▸ ht) hv⟩
    · cases h
  · rename_i hk
    obtain ⟨⟨e, ts₁⟩, he, h⟩ := ok_of_bind h
    obtain ⟨⟨rp, ts₂⟩, hrp, h⟩ := ok_of_bind h
    cases h
    rw [hk] at ht
    have hliteral : t.literal = "(" := ht.text_eq_name (by decide)
    rw [hliteral] at ht hts
    obtain ⟨q, oe, hts⟩ := hinner (by decide) hts he
    obtain ⟨grp, srp, hts⟩ := expect_shows hts (by decide) hrp
    refine ⟨_, ?_, hts⟩
    exact
      { before := (ht.gap (by simp [Bytes.ofString_lparen])).trans oe.before
        lt := oe.lt
        after := oe.after.trans (grp.of_blank.trans (srp.gap (by simp [Token.Kind.name, Bytes.ofString_rparen])))
        matched := ht.group srp (oe.matched.trans grp.matched)
        located := oe.located }
  · rename_i hk
    obtain ⟨⟨r, ts₁⟩, hr, h⟩ := ok_of_bind h
    cases h
    rw [hk] at ht
    have hliteral : t.literal = "-" := ht.text_eq_name (by decide)
    rw [hliteral] at ht hts
    obtain ⟨q, or, hts⟩ := hinner (by decide) hts hr
    refine ⟨q, ?_, hts⟩
    exact
      { before := .refl ..
        lt := Int.lt_trans ht.lt (Int.lt_of_le_of_lt or.before.le or.lt)
        after := or.after
        matched := (ht.matched (by decide) (by decide)).trans or.matched
        located := .negated ht or.before or.located }
  · rename_i hk
    rw [hk] at ht
    have hliteral : t.literal = "if" := ht.text_eq_if
    rw [hliteral] at ht hts
    exact conditional_located hinner ht hts h
  · cases h

/-! ### Arguments -/

theorem moreArguments_located (hinner : Locates s inner) {fuel : Nat} {args : List Expr} (hts : ReadFrom s p ts)
    (h : moreArguments inner fuel ts = .ok (args, rest)) :
    ∃ q, InOrder s q p args ∧ s.Matched p q ∧ (∀ a ∈ args, a.Located s) ∧ ReadFrom s q rest := by
  induction fuel generalizing p ts args with
  | zero =>
      cases h
      exact ⟨p, .nil (.refl ..), .refl .., by simp, hts⟩
  | succ fuel ih =>
      unfold moreArguments at h
      split at h
      · rename_i hkind
        obtain ⟨⟨c, ts₁⟩, hc, h⟩ := ok_of_bind h
        obtain ⟨⟨a, ts₂⟩, ha, h⟩ := ok_of_bind h
        obtain ⟨⟨more, ts₃⟩, hmore, h⟩ := ok_of_bind h
        cases h
        obtain ⟨gc, sc, hts⟩ := consume_sign hts hkind (by decide) hc
        obtain ⟨q₁, oa, hts⟩ := hinner (by decide) hts ha
        obtain ⟨q, horder, hmatched, hlocated, hts⟩ := ih hts hmore
        obtain ⟨hbetween, hcomma⟩ := comma_between gc sc
        refine ⟨q, oa.inOrder hbetween horder, hcomma.trans (oa.matched.trans hmatched), ?_, hts⟩
        exact List.forall_mem_cons.mpr ⟨oa.located, hlocated⟩
      · cases h
        exact ⟨p, .nil (.refl ..), .refl .., by simp, hts⟩

theorem arguments_located (hinner : Locates s inner) {fuel : Nat} {args : List Expr} {lp : Position} {rp : Token}
    (hlp : lp.Shows s .lparen "(") (hts : ReadFrom s (after lp "(") ts)
    (h : arguments inner fuel ts = .ok ((args, rp), rest)) :
    Enclosed s lp args rp.start ∧ (∀ a ∈ args, a.Located s) ∧ ReadFrom s (after rp.start ")") rest := by
  unfold arguments at h
  split at h
  · rename_i hkind
    obtain ⟨⟨rp, ts₁⟩, hrp, h⟩ := ok_of_bind h
    cases h
    obtain ⟨grp, srp, hts⟩ := consume_sign hts hkind (by decide) hrp
    exact ⟨⟨hlp, srp, grp.matched, .nil grp.of_blank⟩, by simp, hts⟩
  · obtain ⟨⟨a, ts₁⟩, ha, h⟩ := ok_of_bind h
    obtain ⟨⟨more, ts₂⟩, hmore, h⟩ := ok_of_bind h
    obtain ⟨⟨rp, ts₃⟩, hrp, h⟩ := ok_of_bind h
    cases h
    obtain ⟨q₁, oa, hts⟩ := hinner (by decide) hts ha
    obtain ⟨q₂, horder, hmatched, hlocated, hts⟩ := moreArguments_located hinner hts hmore
    obtain ⟨grp, srp, hts⟩ := expect_shows hts (by decide) hrp
    have hpartners := oa.matched.trans (hmatched.trans grp.matched)
    refine ⟨⟨hlp, srp, hpartners, oa.inOrder (.refl ..) (horder.after grp.of_blank)⟩, ?_, hts⟩
    exact List.forall_mem_cons.mpr ⟨oa.located, hlocated⟩

/-! ### Operators -/

/-- What an operator makes of a tree on its left stands from there to where the operator's right side ends. -/
theorem extend_located (hinner : Locates s inner) {left e : Expr} {fuel : Nat} (hleft : Occupies s p left q)
    (hgap : s.Gap [] q t.start) (ht : t.start.Shows s t.kind t.literal) (hts : ReadFrom s (after t.start t.literal) ts)
    (h : extend inner fuel left t ts = .ok (e, rest)) : ∃ q', Occupies s p e q' ∧ ReadFrom s q' rest := by
  have hstop : s.Gap [41] left.stop t.start := hleft.after.trans hgap.of_blank
  have hlt : left.pos.offset < t.start.offset := Int.lt_of_lt_of_le hleft.lt hstop.le
  have hmatched : s.Matched p t.start := hleft.matched.trans hgap.matched
  unfold extend at h
  split at h
  · rename_i hk
    split at h
    · rename_i x name
      obtain ⟨⟨v, ts₁⟩, hv, h⟩ := ok_of_bind h
      cases h
      rw [hk] at ht
      have hliteral : t.literal = "=" := ht.text_eq_name (by decide)
      rw [hliteral] at ht hts
      obtain ⟨q', ov, hts⟩ := hinner (by decide) hts hv
      cases hleft.located with
      | ident hname =>
          refine ⟨q', ?_, hts⟩
          exact
            { before := hleft.before
              lt := Int.lt_trans hlt (Int.lt_trans ht.lt (Int.lt_of_le_of_lt ov.before.le ov.lt))
              after := ov.after
              matched := hmatched.trans ((ht.matched (by decide) (by decide)).trans ov.matched)
              located := .assign hname ht hstop ov.before ov.located }
    · cases h
  · rename_i hk
    split at h
    · rename_i x name
      obtain ⟨⟨⟨args, rp⟩, ts₁⟩, hargs, h⟩ := ok_of_bind h
      cases h
      rw [hk] at ht
      have hliteral : t.literal = "(" := ht.text_eq_name (by decide)
      rw [hliteral] at ht hts
      obtain ⟨henclosed, hlocated, hts⟩ := arguments_located hinner ht hts hargs
      cases hleft.located with
      | ident hname =>
          refine ⟨_, ?_, hts⟩
          exact
            { before := hleft.before
              lt := Int.lt_of_lt_of_le hlt henclosed.matched.le
              after := .refl ..
              matched := hmatched.trans henclosed.matched
              located := .call hname hstop henclosed hlocated }
    · cases h
  · rename_i hassign hlparen
    split at h
    · rename_i o ho
      obtain ⟨⟨r, ts₁⟩, hr, h⟩ := ok_of_bind h
      cases h
      obtain ⟨q', or, hts⟩ := hinner t.kind.one_le_level hts hr
      have hsymbol : t.literal = Operator.symbolOf o.number := by
        rw [Expr.symbolOf_number, Operator.symbol_of_ofSymbol? ho]
      have hrparen : t.kind ≠ .rparen := by
        intro hk
        rw [hk] at ht
        rw [show t.literal = ")" from ht.text_eq_name (by decide)] at ho
        cases ho
      refine ⟨q', ?_, hts⟩
      have hop := (ht.matched hlparen hrparen).trans or.matched
      rw [hsymbol] at ht or
      exact
        { before := hleft.before
          lt := Int.lt_trans hlt (Int.lt_trans ht.lt (Int.lt_of_le_of_lt or.before.le or.lt))
          after := or.after
          matched := hmatched.trans hop
          located := .binary ht hstop or.before hleft.located or.located }
    · cases h

/-- A tree that is extended by any number of operators stands from where it started. -/
theorem extendAll_located (hinner : Locates s inner) {left e : Expr} {limit level fuel : Nat} (hlevel : 1 ≤ level)
    (hleft : Occupies s p left q) (hts : ReadFrom s q ts)
    (h : extendAll inner limit level fuel left ts = .ok (e, rest)) : ∃ q', Occupies s p e q' ∧ ReadFrom s q' rest := by
  induction fuel generalizing q left ts with
  | zero =>
      cases h
      exact ⟨q, hleft, hts⟩
  | succ fuel ih =>
      unfold extendAll at h
      split at h
      · rename_i htighter
        obtain ⟨⟨t, ts₁⟩, ht, h⟩ := ok_of_bind h
        obtain ⟨⟨left', ts₂⟩, hextend, hloop⟩ := ok_of_bind h
        have heof : t.kind ≠ .eof := by
          intro heof
          rw [Tokens.kind_of_consume ht, heof] at htighter
          exact absurd htighter (Nat.not_lt.mpr hlevel)
        obtain ⟨hgap, hshows, hts⟩ := consume_shows hts ht heof
        obtain ⟨q', hleft', hts⟩ := extend_located hinner hleft hgap hshows hts hextend
        exact ih hleft' hts hloop
      · cases h
        exact ⟨q, hleft, hts⟩

end

/-- Every reader gives a tree that stands where it reads. -/
theorem expression_locates (s : Source) (limit depth : Nat) : Locates s (expression limit depth) := by
  induction depth with
  | zero =>
      intro level p ts e rest _ _ h
      obtain ⟨_, _, h⟩ := ok_of_bind h
      cases h
  | succ depth ih =>
      intro level p ts e rest hlevel hts h
      obtain ⟨⟨t, ts₁⟩, ht, h⟩ := ok_of_bind h
      obtain ⟨⟨left, ts₂⟩, hoperand, hloop⟩ := ok_of_bind h
      have heof : t.kind ≠ .eof := by
        intro heof
        simp [operand, heof] at hoperand
      obtain ⟨hgap, hshows, hts⟩ := consume_shows hts ht heof
      obtain ⟨q, hleft, hts⟩ := operand_located ih hshows hts hoperand
      exact extendAll_located ih hlevel (hleft.of_blank hgap) hts hloop

end Parser

namespace Expr

/-- The positions of a tree that is read are those of the text that its nodes name. -/
theorem parse_located {s : Source} {o : ParseOptions} {e : Expr} (h : parse s o = .ok e) : e.Located s := by
  obtain ⟨rest, he, -⟩ := Parser.whole_eq_ok (parse_eq_ok.mp h)
  obtain ⟨q, hoccupies, -⟩ := Parser.expression_locates s _ _ (Nat.le_refl 1) s.tokens_readFrom he
  exact hoccupies.located

/-- The source `f((a),` with ` -2)` on its second line. -/
def twoLines : Source := ⟨[102, 40, 40, 97, 41, 44, 10, 32, 45, 50, 41], ""⟩

/-- The call of `f`, with the minus and its operand on the second line. -/
def twoLinesTree : Expr :=
  .call ⟨0, 0, 0, 0, ""⟩ "f" ⟨1, 0, 0, 1, ""⟩
    [.ident ⟨3, 0, 0, 3, ""⟩ "a",
      .binary (.int ⟨8, 7, 1, 1, ""⟩ "0" 0) ⟨8, 7, 1, 1, ""⟩ Operator.subtract.number (.int ⟨9, 7, 1, 2, ""⟩ "2" 2)]
    ⟨10, 7, 1, 3, ""⟩

theorem parse_twoLines : parse twoLines = .ok twoLinesTree := by
  have htokens : twoLines.tokens = Tokens.prepend
      [tokenAt 0 .ident "f", tokenAt 1 .lparen "(", tokenAt 2 .lparen "(", tokenAt 3 .ident "a", tokenAt 4 .rparen ")",
        tokenAt 5 .comma ",", ⟨.minus, "-", ⟨8, 7, 1, 1, ""⟩, ⟨9, 7, 1, 2, ""⟩⟩,
        ⟨.int, "2", ⟨9, 7, 1, 2, ""⟩, ⟨10, 7, 1, 3, ""⟩⟩, ⟨.rparen, ")", ⟨10, 7, 1, 3, ""⟩, ⟨11, 7, 1, 4, ""⟩⟩]
      (.done ⟨.eof, "", ⟨11, 7, 1, 4, ""⟩, ⟨11, 7, 1, 4, ""⟩⟩) := by
    rw [Source.tokens, Lexer.stream_more (by decide) rfl, Lexer.stream_more (by decide) rfl,
      Lexer.stream_more (by decide) rfl, Lexer.stream_more (by decide) rfl, Lexer.stream_more (by decide) rfl,
      Lexer.stream_more (by decide) rfl, Lexer.stream_more (by decide) rfl, Lexer.stream_more (by decide) rfl,
      Lexer.stream_more (by decide) rfl, Lexer.stream_done (by decide)]
    decide
  rw [parse, htokens]
  rfl

/-- The nodes of the call are located, those on the second line included. -/
theorem twoLines_located : parse twoLines = .ok twoLinesTree ∧ twoLinesTree.Located twoLines :=
  ⟨parse_twoLines, parse_located parse_twoLines⟩

end Expr

end TierCalc
