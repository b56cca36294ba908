import Mathlib.Data.List.Basic
import TierCalc.Expr.Parser
import TierCalc.Fallible
import TierCalc.Proofs.Expr.Grammar
import TierCalc.Proofs.Source.Lexer

/-!
# What is read is a phrase

Every part of a reader that succeeds has taken tokens off the front of its stream, and they spell the tree that it
gives. A reader of a level takes every operator that binds tighter, so what it leaves starts with none of them
(`Faithful`); therefore the right operand of an operator is as long as the grammar says.

Which literals are numbers is a parameter here. `expressionBy` is `expression` with this parameter, and the two are
equal where it is `literalValue?`.
-/

namespace TierCalc

open Grammar

/-! ### Taking tokens -/

namespace Tokens

theorem kind_of_consume {ts rest : Tokens} {t : Token} (h : ts.consume = .ok (t, rest)) : ts.kind = t.kind := by
  unfold consume at h
  split at h <;> cases h <;> rfl

theorem eq_more_of_consume {ts rest : Tokens} {t : Token} (hts : ts.Proper) (h : ts.consume = .ok (t, rest))
    (ht : t.kind ≠ .eof) : ts = .more t rest := by
  unfold consume at h
  split at h <;> cases h
  · rfl
  · exact absurd hts ht

/-- A stream of at most `limit` tokens as a source gives it. -/
structure Ready (limit : Nat) (ts : Tokens) : Prop where
  proper : ts.Proper
  size_le : ts.size ≤ limit

theorem Ready.rest {limit : Nat} {l : List Token} {ts : Tokens} (h : Ready limit (prepend l ts)) : Ready limit ts := by
  refine ⟨h.proper.of_prepend.2, ?_⟩
  have := h.size_le
  rw [size_prepend] at this
  omega

theorem Ready.tail {limit : Nat} {t : Token} {ts : Tokens} (h : Ready limit (.more t ts)) : Ready limit ts :=
  Ready.rest (l := [t]) h

/-- A token of a known kind is taken off the front, and the rest can be read on. -/
theorem Ready.consume {limit : Nat} {k : Token.Kind} {ts rest : Tokens} {t : Token} (hts : Ready limit ts)
    (hk : ts.kind = k) (hne : k ≠ .eof) (h : ts.consume = .ok (t, rest)) :
    ts = .more t rest ∧ t.kind = k ∧ Ready limit rest := by
  have ht : t.kind = k := (kind_of_consume h).symm.trans hk
  obtain rfl := eq_more_of_consume hts.proper h (ht ▸ hne)
  exact ⟨rfl, ht, hts.tail⟩

end Tokens

theorem Tokens.level_of_size {ts : Tokens} (hts : ts.Proper) (h : ts.size = 0) : ts.kind.level = 1 := by
  cases ts with
  | more t rest => simp [Tokens.size] at h
  | done t =>
      rw [Tokens.kind, show t.kind = .eof from hts]
      rfl
  | fault e => rfl

theorem Token.Kind.level_le (k : Token.Kind) : k.level ≤ 8 := by
  cases k <;> decide

namespace Parser

open Tokens (Ready prepend)

theorem expect_eq_ok {limit : Nat} {wanted : Token.Kind} {within : Construct} {ts rest : Tokens} {t : Token}
    (hts : Ready limit ts) (hwanted : wanted ≠ .eof) (h : expect wanted within ts = .ok (t, rest)) :
    ts = .more t rest ∧ t.kind = wanted ∧ Ready limit rest := by
  unfold expect at h
  split at h
  · rename_i hkind
    exact hts.consume hkind hwanted h
  · obtain ⟨_, _, h⟩ := ok_of_bind h
    cases h

section

variable (value : String → Option Int64)

/-- `operand` with a rule for literals. -/
def operandBy (inner : Nat → Tokens → Except SyntaxFault (Expr × Tokens)) (t : Token) (ts : Tokens) :
    Except SyntaxFault (Expr × Tokens) :=
  if t.kind = .int then
    match value t.literal with
    | some v => .ok (.int t.start t.literal v, ts)
    | none => .error (.outOfRange t)
  else operand inner t ts

/-- `expression` with a rule for literals. -/
def expressionBy (limit : Nat) : (depth level : Nat) → Tokens → Except SyntaxFault (Expr × Tokens)
  | 0, _, ts => do
      let (t, _) ← ts.consume
      throw (.tooDeep t)
  | depth + 1, level, ts => do
      let (t, ts) ← ts.consume
      let (left, ts) ← operandBy value (expressionBy limit depth) t ts
      extendAll (expressionBy limit depth) limit level limit left ts

end

theorem operandBy_literalValue (inner : Nat → Tokens → Except SyntaxFault (Expr × Tokens)) (t : Token) (ts : Tokens) :
    operandBy literalValue? inner t ts = operand inner t ts := by
  unfold operandBy
  split
  · rename_i hint
    cases hv : literalValue? t.literal <;> simp [operand, hint, hv]
  · rfl

theorem expressionBy_literalValue (limit depth : Nat) :
    expressionBy literalValue? limit depth = expression limit depth := by
  induction depth with
  | zero => rfl
  | succ depth ih =>
      funext level ts
      simp only [expressionBy, expression, ih, operandBy_literalValue]

/-! ### One expression -/

section

variable {value : String → Option Int64} {limit : Nat} {inner : Nat → Tokens → Except SyntaxFault (Expr × Tokens)}

/-- What a reader of each level takes is a phrase of operators that bind tighter, and it leaves no such operator. -/
def Faithful (value : String → Option Int64) (limit : Nat)
    (inner : Nat → Tokens → Except SyntaxFault (Expr × Tokens)) : Prop :=
  ∀ {level : Nat} {ts : Tokens} {e : Expr} {rest : Tokens}, 1 ≤ level → Ready limit ts →
    inner level ts = .ok (e, rest) →
    ∃ l, ts = prepend l rest ∧ Derives value (.at (level + 1)) (l.map .ofToken) e.unplaced ∧
      Ready limit rest ∧ rest.kind.level ≤ level

theorem Faithful.whole (hinner : Faithful value limit inner) {ts rest : Tokens} {e : Expr} (hts : Ready limit ts)
    (h : inner Token.Kind.lowest ts = .ok (e, rest)) :
    ∃ l, ts = prepend l rest ∧ Derives value .whole (l.map .ofToken) e.unplaced ∧ Ready limit rest := by
  obtain ⟨l, rfl, hd, hrest, -⟩ := hinner (Nat.le_refl 1) hts h
  exact ⟨l, rfl, hd, hrest⟩

theorem conditional_derives (hinner : Faithful value limit inner) {t : Token} (ht : t.kind = .cond) {ts rest : Tokens}
    {e : Expr} (hts : Ready limit ts) (h : conditional inner t ts = .ok (e, rest)) :
    ∃ l, ts = prepend l rest ∧ Derives value .atom ((t :: l).map .ofToken) e.unplaced := by
  unfold conditional at h
  obtain ⟨⟨lp, ts₁⟩, hlp, h⟩ := ok_of_bind h
  obtain ⟨⟨c, ts₂⟩, hc, h⟩ := ok_of_bind h
  obtain ⟨⟨c₁, ts₃⟩, hc₁, h⟩ := ok_of_bind h
  obtain ⟨⟨y, ts₄⟩, hy, h⟩ := ok_of_bind h
  obtain ⟨⟨c₂, ts₅⟩, hc₂, h⟩ := ok_of_bind h
  obtain ⟨⟨n, ts₆⟩, hn, h⟩ := ok_of_bind h
  obtain ⟨⟨rp, ts₇⟩, hrp, h⟩ := ok_of_bind h
  cases h
  obtain ⟨rfl, klp, hts⟩ := expect_eq_ok hts (by decide) hlp
  obtain ⟨lc, rfl, dc, hts⟩ := hinner.whole hts hc
  obtain ⟨rfl, kc₁, hts⟩ := expect_eq_ok hts (by decide) hc₁
  obtain ⟨ly, rfl, dy, hts⟩ := hinner.whole hts hy
  obtain ⟨rfl, kc₂, hts⟩ := expect_eq_ok hts (by decide) hc₂
  obtain ⟨ln, rfl, dn, hts⟩ := hinner.whole hts hn
  obtain ⟨rfl, krp, -⟩ := expect_eq_ok hts (by decide) hrp
  refine ⟨lp :: (lc ++ c₁ :: (ly ++ c₂ :: (ln ++ [rp]))), by simp [Tokens.prepend_append], ?_⟩
  simpa [Terminal.ofToken, ht, klp, kc₁, kc₂, krp, Expr.unplaced] using Derives.cond dc dy dn

/-- What an operand takes is a signed phrase. -/
theorem operandBy_derives (hinner : Faithful value limit inner) {t : Token} {ts rest : Tokens} {e : Expr}
    (hts : Ready limit ts) (h : operandBy value inner t ts = .ok (e, rest)) :
    ∃ l, ts = prepend l rest ∧ Derives value .signed ((t :: l).map .ofToken) e.unplaced := by
  unfold operandBy at h
  split at h
  · rename_i hint
    split at h
    · rename_i v hv
      cases h
      refine ⟨[], rfl, .unsigned (.uncalled ?_)⟩
      simpa [Terminal.ofToken, hint, Expr.unplaced] using Derives.int hv
    · cases h
  · rename_i hint
    unfold operand at h
    split at h
    · rename_i ht
      cases h
      refine ⟨[], rfl, .unsigned (.uncalled ?_)⟩
      simpa [Terminal.ofToken, ht, Expr.unplaced] using Derives.name t.literal
    · contradiction
    · rename_i ht
      obtain ⟨⟨e, ts₁⟩, he, h⟩ := ok_of_bind h
      obtain ⟨⟨rp, ts₂⟩, hrp, h⟩ := ok_of_bind h
      cases h
      obtain ⟨l, rfl, de, hts⟩ := hinner.whole hts he
      obtain ⟨rfl, krp, -⟩ := expect_eq_ok hts (by decide) hrp
      refine ⟨l ++ [rp], by simp [Tokens.prepend_append], .unsigned (.uncalled ?_)⟩
      simpa [Terminal.ofToken, ht, krp] using Derives.group de
    · rename_i ht
      obtain ⟨⟨e, ts₁⟩, he, h⟩ := ok_of_bind h
      cases h
      obtain ⟨l, rfl, de, -⟩ := hinner (by decide) hts he
      refine ⟨l, rfl, ?_⟩
      simpa [Terminal.ofToken, ht, Expr.unplaced] using Derives.negated de
    · rename_i ht
      obtain ⟨l, rfl, he⟩ := conditional_derives hinner ht hts h
      exact ⟨l, rfl, .unsigned (.uncalled he)⟩
    · cases h

/-! ### Arguments -/

theorem moreArguments_derives (hinner : Faithful value limit inner) {fuel : Nat} {ts rest : Tokens} {args : List Expr}
    (hts : Ready limit ts) (h : moreArguments inner fuel ts = .ok (args, rest)) :
    ∃ (l : List Token) (parts : List (List Terminal × Expr)), ts = prepend l rest ∧ Ready limit rest ∧
      l.map .ofToken = (parts.map (·.1)).flatMap (.comma :: ·) ∧ args.map Expr.unplaced = parts.map (·.2) ∧
      ∀ a ∈ parts, Derives value .whole a.1 a.2 := by
  induction fuel generalizing ts args with
  | zero =>
      cases h
      exact ⟨[], [], rfl, hts, rfl, rfl, by simp⟩
  | succ fuel ih =>
      unfold moreArguments at h
      split at h
      · rename_i hcomma
        obtain ⟨⟨c, ts₁⟩, hc, h⟩ := ok_of_bind h
        obtain ⟨⟨a, ts₂⟩, ha, h⟩ := ok_of_bind h
        obtain ⟨⟨args, ts₃⟩, hmore, h⟩ := ok_of_bind h
        cases h
        obtain ⟨rfl, kc, hts⟩ := hts.consume hcomma (by decide) hc
        obtain ⟨la, rfl, da, hts⟩ := hinner.whole hts ha
        obtain ⟨l, parts, rfl, hrest, hl, hargs, hparts⟩ := ih hts hmore
        refine ⟨c :: (la ++ l), (la.map .ofToken, a.unplaced) :: parts, by simp [Tokens.prepend_append], hrest, ?_, ?_,
          ?_⟩
        · simp [Terminal.ofToken, kc, hl]
        · simp [hargs]
        · exact List.forall_mem_cons.mpr ⟨da, hparts⟩
      · cases h
        exact ⟨[], [], rfl, hts, rfl, rfl, by simp⟩

/-- Arguments stand with commas between them before the closing parenthesis. -/
theorem arguments_derives (hinner : Faithful value limit inner) {fuel : Nat} {ts rest : Tokens} {args : List Expr}
    {rp : Token} (hts : Ready limit ts) (h : arguments inner fuel ts = .ok ((args, rp), rest)) :
    ∃ (l : List Token) (parts : List (List Terminal × Expr)), ts = prepend l rest ∧
      l.map .ofToken = [Terminal.comma].intercalate (parts.map (·.1)) ++ [.rparen] ∧
      args.map Expr.unplaced = parts.map (·.2) ∧ ∀ a ∈ parts, Derives value .whole a.1 a.2 := by
  unfold arguments at h
  split at h
  · rename_i hkind
    obtain ⟨⟨rp, ts₁⟩, hrp, h⟩ := ok_of_bind h
    cases h
    obtain ⟨rfl, krp, -⟩ := hts.consume hkind (by decide) hrp
    exact ⟨[rp], [], rfl, by simp [Terminal.ofToken, krp], rfl, by simp⟩
  · obtain ⟨⟨a, ts₁⟩, ha, h⟩ := ok_of_bind h
    obtain ⟨⟨args, ts₂⟩, hmore, h⟩ := ok_of_bind h
    obtain ⟨⟨rp, ts₃⟩, hrp, h⟩ := ok_of_bind h
    cases h
    obtain ⟨la, rfl, da, hts⟩ := hinner.whole hts ha
    obtain ⟨l, parts, rfl, hts, hl, hargs, hparts⟩ := moreArguments_derives hinner hts hmore
    obtain ⟨rfl, krp, -⟩ := expect_eq_ok hts (by decide) hrp
    refine ⟨la ++ (l ++ [rp]), (la.map .ofToken, a.unplaced) :: parts, by simp [Tokens.prepend_append], ?_, ?_, ?_⟩
    · simp [intercalate_cons, Terminal.ofToken, krp, hl]
    · simp [hargs]
    · exact List.forall_mem_cons.mpr ⟨da, hparts⟩

/-! ### Operators -/

theorem exists_op {t : Token} (hlow : 3 ≤ t.kind.level) (hhigh : t.kind.level ≤ 7) :
    ∃ o, Terminal.ofToken t = .op o := by
  cases hk : t.kind <;> simp_all [Terminal.ofToken, Token.Kind.level]

theorem level_of_op {t : Token} {o : Operator} (h : Terminal.ofToken t = .op o) :
    t.kind.level = (tier o).level := by
  rw [← Terminal.kind_ofToken, h, level_kind_op]

theorem ofSymbol?_literal {t : Token} {o : Operator} (ht : t.Spelled) (h : Terminal.ofToken t = .op o) :
    Operator.ofSymbol? t.literal = some o := by
  have hkind : t.kind = (Terminal.op o).kind := by rw [← h, Terminal.kind_ofToken]
  have hliteral : t.literal = t.kind.name := by
    apply ht <;> rw [hkind] <;> cases o <;> decide
  rw [hliteral, hkind]
  cases o <;> rfl

/-- What an operator makes of a phrase on its left is a phrase as tight as the operator, to its end. -/
theorem extend_derives (hinner : Faithful value limit inner) {left : Expr} {l : List Token} {t : Token} {m : Nat}
    (hleft : Derives value (.at m) (l.map .ofToken) left.unplaced) (ht : t.Proper) (hlow : 2 ≤ t.kind.level)
    (hm : t.kind.level ≤ m) {fuel : Nat} {ts rest : Tokens} {e : Expr} (hts : Ready limit ts)
    (h : extend inner fuel left t ts = .ok (e, rest)) :
    ∃ l', ts = prepend l' rest ∧ Derives value (.at t.kind.level) ((l ++ t :: l').map .ofToken) e.unplaced ∧
      Ready limit rest ∧ rest.kind.level ≤ t.kind.level := by
  unfold extend at h
  split at h
  · rename_i hk
    split at h
    · rename_i p x
      obtain ⟨⟨v, ts₁⟩, hv, h⟩ := ok_of_bind h
      cases h
      obtain ⟨l', rfl, dv, hrest, hnext⟩ := hinner (Nat.le_refl 1) hts hv
      refine ⟨l', rfl, ?_, hrest, ?_⟩
      · simpa [Phrase.at, Token.Kind.level, Terminal.ofToken, hk, Expr.unplaced] using
          Derives.assign hleft.target dv
      · omega
    · cases h
  · rename_i hk
    split at h
    · rename_i p x
      obtain ⟨⟨⟨args, rp⟩, ts₁⟩, hargs, h⟩ := ok_of_bind h
      cases h
      obtain ⟨l', parts, rfl, hl', hparts, dparts⟩ := arguments_derives hinner hts hargs
      refine ⟨l', rfl, ?_, hts.rest, ?_⟩
      · have hcall := Derives.unsigned (Derives.call parts hleft.target dparts)
        simpa [Phrase.at, Token.Kind.level, Terminal.ofToken, hk, Expr.unplaced, Expr.argsUnplaced_eq, hl', hparts]
          using hcall
      · rw [hk]
        exact Token.Kind.level_le _
    · cases h
  · rename_i hassign hlparen
    have hbinary : 3 ≤ t.kind.level ∧ t.kind.level ≤ 7 := by
      cases hk : t.kind <;> simp_all [Token.Kind.level]
    obtain ⟨o, ho⟩ := exists_op hbinary.1 hbinary.2
    rw [ofSymbol?_literal ht.spelled ho] at h
    obtain ⟨⟨r, ts₁⟩, hr, h⟩ := ok_of_bind h
    cases h
    obtain ⟨l', rfl, dr, hrest, hnext⟩ := hinner (by omega) hts hr
    refine ⟨l', rfl, ?_, hrest, hnext⟩
    replace hleft := hleft.widen hm
    rw [level_of_op ho] at hleft dr ⊢
    rw [Phrase.at_level] at hleft ⊢
    rw [Phrase.at_level_succ] at dr
    simpa [ho, Expr.unplaced] using Derives.joined o hleft dr

/-- Extending a phrase by every tighter operator leaves none of them, if there is enough fuel. -/
theorem extendAll_derives (hinner : Faithful value limit inner) {level fuel m : Nat} {left e : Expr} {l : List Token}
    {ts rest : Tokens} (hlevel : 1 ≤ level) (hleft : Derives value (.at m) (l.map .ofToken) left.unplaced)
    (hm : level < m) (hnext : ts.kind.level ≤ m) (hts : Ready limit ts) (hfuel : ts.size ≤ fuel)
    (h : extendAll inner limit level fuel left ts = .ok (e, rest)) :
    ∃ l', ts = prepend l' rest ∧ Derives value (.at (level + 1)) ((l ++ l').map .ofToken) e.unplaced ∧
      Ready limit rest ∧ rest.kind.level ≤ level := by
  induction fuel generalizing m left l ts with
  | zero =>
      have hend : ts.kind.level = 1 := Tokens.level_of_size hts.proper (by omega)
      cases h
      exact ⟨[], rfl, by simpa using hleft.widen hm, hts, by omega⟩
  | succ fuel ih =>
      unfold extendAll at h
      split at h
      · rename_i htighter
        obtain ⟨⟨t, ts₁⟩, ht, h⟩ := ok_of_bind h
        obtain ⟨⟨left', ts₂⟩, hextend, hloop⟩ := ok_of_bind h
        have heof : ts.kind ≠ .eof := by
          intro heof
          rw [heof] at htighter
          exact absurd htighter (Nat.not_lt.mpr hlevel)
        obtain ⟨rfl, -, htail⟩ := hts.consume rfl heof ht
        have hlow : 2 ≤ t.kind.level := Nat.le_trans (Nat.succ_le_succ hlevel) htighter
        obtain ⟨l₁, rfl, hleft', hts', hnext'⟩ := extend_derives hinner hleft hts.proper.1 hlow hnext htail hextend
        have hfuel' : ts₂.size ≤ fuel := by
          simp only [Tokens.size, Tokens.size_prepend] at hfuel
          omega
        obtain ⟨l₂, rfl, he, hrest, hstop⟩ := ih hleft' htighter hnext' hts' hfuel' hloop
        refine ⟨t :: (l₁ ++ l₂), by simp [Tokens.prepend_append], ?_, hrest, hstop⟩
        simpa using he
      · cases h
        exact ⟨[], rfl, by simpa using hleft.widen hm, hts, by omega⟩

/-- Every reader takes a phrase, to its end. -/
theorem expressionBy_faithful (value : String → Option Int64) (limit depth : Nat) :
    Faithful value limit (expressionBy value limit depth) := by
  induction depth with
  | zero =>
      intro level ts e rest _ _ h
      obtain ⟨_, _, h⟩ := ok_of_bind h
      cases h
  | succ depth ih =>
      intro level ts e rest hlevel hts h
      obtain ⟨⟨t, ts₁⟩, ht, h⟩ := ok_of_bind h
      obtain ⟨⟨left, ts₂⟩, hleft, hloop⟩ := ok_of_bind h
      have heof : t.kind ≠ .eof := by
        intro heof
        simp [operandBy, operand, heof] at hleft
      obtain rfl := Tokens.eq_more_of_consume hts.proper ht heof
      obtain ⟨l₁, rfl, dleft⟩ := operandBy_derives ih hts.tail hleft
      -- An operand is followed by anything: no operator binds tighter than a call.
      have hleft : Derives value (.at (level + 8)) ((t :: l₁).map .ofToken) left.unplaced := dleft
      have hnext : ts₂.kind.level ≤ level + 8 := Nat.le_trans ts₂.kind.level_le (Nat.le_add_left 8 level)
      obtain ⟨l₂, rfl, he, hrest, hstop⟩ :=
        extendAll_derives ih hlevel hleft (by omega) hnext hts.tail.rest hts.tail.rest.size_le hloop
      exact ⟨t :: (l₁ ++ l₂), by simp [Tokens.prepend_append], by simpa using he, hrest, hstop⟩

end

end Parser

end TierCalc
