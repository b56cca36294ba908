import Mathlib.Data.List.Basic
import TierCalc.Proofs.Expr.Soundness

/-!
# Every phrase is read

A reader that meets a phrase of its level, with nothing after it that could continue it, takes exactly this phrase.
Operators of one tier group to the left, so the invariant speaks of the reading in its middle (`Readable`): the reader
has the tree of the phrase on its left and goes on with whatever follows.

Reading is a function, so a sequence of terminals starts with at most one phrase that nothing after it continues, and
this spells one tree (`derives_unique`).
-/

namespace TierCalc

open Grammar

namespace Grammar

/-- The highest level of a reader that takes the phrase. -/
def Phrase.opens : Phrase → Nat
  | .whole => 1
  | .chain t => t.level - 1
  | .signed | .call | .atom => 7

/-- The highest level of a token that may follow the phrase without becoming part of it. -/
def Phrase.closes : Phrase → Nat
  | .whole => 1
  | .chain t => t.level
  | .signed => 7
  | .call | .atom => 8

/-- The tokens write the terminals, in their own spelling. -/
structure Written (l : List Token) (ws : List Terminal) : Prop where
  terminals : l.map .ofToken = ws
  spelled : ∀ t ∈ l, t.Spelled

section

variable {l : List Token} {w : Terminal} {ws vs : List Terminal}

theorem Written.cons (h : Written l (w :: ws)) :
    ∃ t l', l = t :: l' ∧ Terminal.ofToken t = w ∧ t.Spelled ∧ Written l' ws := by
  obtain ⟨t, l', rfl, ht, hl'⟩ := List.map_eq_cons_iff.mp h.terminals
  have hspelled := List.forall_mem_cons.mp h.spelled
  exact ⟨t, l', rfl, ht, hspelled.1, hl', hspelled.2⟩

theorem Written.append (h : Written l (ws ++ vs)) : ∃ l₁ l₂, l = l₁ ++ l₂ ∧ Written l₁ ws ∧ Written l₂ vs := by
  obtain ⟨l₁, l₂, rfl, h₁, h₂⟩ := List.map_eq_append_iff.mp h.terminals
  have hspelled := List.forall_mem_append.mp h.spelled
  exact ⟨l₁, l₂, rfl, ⟨h₁, hspelled.1⟩, h₂, hspelled.2⟩

theorem Written.nil (h : Written l []) : l = [] := List.map_eq_nil_iff.mp h.terminals

theorem Written.singleton (h : Written l [w]) : ∃ t, l = [t] ∧ Terminal.ofToken t = w ∧ t.Spelled := by
  obtain ⟨t, l', rfl, ht, hspelled, hl'⟩ := h.cons
  rw [hl'.nil]
  exact ⟨t, rfl, ht, hspelled⟩

theorem kind_of_terminal {t : Token} (h : Terminal.ofToken t = w) : t.kind = w.kind := by
  rw [← h, Terminal.kind_ofToken]

/-- A token without a place that stands for a terminal. -/
def Terminal.token (w : Terminal) : Token :=
  { kind := w.kind
    literal := match w with
      | .int s => s
      | .name x => x
      | _ => w.kind.name
    start := default
    stop := default }

theorem Terminal.ofToken_token (w : Terminal) : ofToken w.token = w := by
  cases w with
  | op o => cases o <;> rfl
  | _ => rfl

theorem Terminal.token_spelled (w : Terminal) : w.token.Spelled := by
  intro hint hident hcond
  cases w with
  | int s => exact absurd rfl hint
  | name x => exact absurd rfl hident
  | _ => rfl

theorem written_tokens (ws : List Terminal) : Written (ws.map Terminal.token) ws := by
  constructor
  · rw [List.map_map]
    exact (List.map_congr_left fun w _ => w.ofToken_token).trans (List.map_id ws)
  · intro t ht
    obtain ⟨w, -, rfl⟩ := List.mem_map.mp ht
    exact w.token_spelled

end

end Grammar

namespace Tokens

/-- No illegal byte stands at the front. -/
def Clean (ts : Tokens) : Prop := ∀ e, ts ≠ .fault e

theorem Clean.prepend {ts : Tokens} (h : ts.Clean) (l : List Token) : (prepend l ts).Clean := by
  cases l with
  | nil => exact h
  | cons t l => exact nofun

@[simp] theorem kind_more (t : Token) (ts : Tokens) : (more t ts).kind = t.kind := rfl

theorem clean_more (t : Token) (ts : Tokens) : (more t ts).Clean := nofun

theorem clean_done (t : Token) : (done t).Clean := nofun

theorem consume_more {t : Token} {ts : Tokens} (h : ts.Clean) : (more t ts).consume = .ok (t, ts) := by
  cases ts with
  | fault e => exact absurd rfl (h e)
  | _ => rfl

end Tokens

namespace Parser

open Tokens (prepend Clean)

theorem expect_more {t : Token} {ts : Tokens} {wanted : Token.Kind} (hts : ts.Clean) (ht : t.kind = wanted)
    (within : Construct) : expect wanted within (.more t ts) = .ok (t, ts) := by
  rw [expect, if_pos (by exact ht), Tokens.consume_more hts]

/-! ### The loop over operators -/

section

variable {inner : Nat → Tokens → Except SyntaxFault (Expr × Tokens)} {limit level fuel : Nat} {left e : Expr}
  {t : Token} {ts rest : Tokens}

theorem extendAll_stop (h : ts.kind.level ≤ level) : extendAll inner limit level fuel left ts = .ok (left, ts) := by
  cases fuel with
  | zero => rfl
  | succ fuel => rw [extendAll, if_neg (Nat.not_lt.mpr h)]

/-- One round of the loop. -/
theorem extendAll_more (ht : level < t.kind.level) (hts : ts.Clean)
    (h : extend inner limit left t ts = .ok (e, rest)) :
    extendAll inner limit level (fuel + 1) left (.more t ts) = extendAll inner limit level fuel e rest := by
  rw [extendAll, if_pos (by exact ht), bind_of_ok (Tokens.consume_more hts)]
  exact bind_of_ok h _

end

/-! ### Readable phrases -/

/-- Reading an operand and then operators as long as the fuel lasts. -/
def startBy (value : String → Option Int64) (inner : Nat → Tokens → Except SyntaxFault (Expr × Tokens))
    (limit level fuel : Nat) (ts : Tokens) : Except SyntaxFault (Expr × Tokens) := do
  let (t, ts) ← ts.consume
  let (left, ts) ← operandBy value inner t ts
  extendAll inner limit level fuel left ts

section

variable (value : String → Option Int64)

/-- A reader takes the phrase off any stream and goes on with what follows. The first terminal tells arguments from the
end of an empty list of them. -/
structure Readable (p : Phrase) (ws : List Terminal) (e : Expr) : Prop where
  starts : ∃ w vs, ws = w :: vs ∧ w ≠ .rparen
  read : ∀ (limit depth level fuel : Nat) {l : List Token} {rest : Tokens}, Written l ws → rest.Clean →
    level ≤ p.opens → rest.kind.level ≤ p.closes → l.length ≤ depth + 1 → l.length ≤ limit → l.length ≤ fuel →
    ∃ e' fuel', e'.unplaced = e ∧ fuel ≤ fuel' + l.length ∧
      startBy value (expressionBy value limit depth) limit level fuel (prepend l rest) =
        extendAll (expressionBy value limit depth) limit level fuel' e' rest

end

variable {value : String → Option Int64} {p q : Phrase} {ws : List Terminal} {e : Expr}

/-- A readable phrase before a token that binds no tighter is read as its tree. -/
theorem Readable.expression (h : Readable value p ws e) {limit depth level : Nat} {l : List Token} {rest : Tokens}
    (hl : Written l ws) (hrest : rest.Clean) (hlevel : level ≤ p.opens) (hcloses : rest.kind.level ≤ p.closes)
    (hstop : rest.kind.level ≤ level) (hdepth : l.length ≤ depth) (hlimit : l.length ≤ limit) :
    ∃ e', e'.unplaced = e ∧ expressionBy value limit depth level (prepend l rest) = .ok (e', rest) := by
  have hpos : 0 < l.length := by
    obtain ⟨w, vs, rfl, -⟩ := h.starts
    obtain ⟨t, l', rfl, -⟩ := hl.cons
    exact Nat.succ_pos l'.length
  obtain ⟨depth, rfl⟩ : ∃ d, depth = d + 1 := ⟨depth - 1, by omega⟩
  obtain ⟨e', fuel', he, -, hread⟩ := h.read limit depth level limit hl hrest hlevel hcloses hdepth hlimit hlimit
  refine ⟨e', he, ?_⟩
  rw [extendAll_stop hstop] at hread
  exact hread

theorem Readable.before (h : Readable value .whole ws e) (limit depth : Nat) {l : List Token} {rest : Tokens}
    (hl : Written l ws) (hrest : rest.Clean) (hnext : rest.kind.level = 1) (hdepth : l.length ≤ depth)
    (hlimit : l.length ≤ limit) :
    ∃ e', e'.unplaced = e ∧ expressionBy value limit depth Token.Kind.lowest (prepend l rest) = .ok (e', rest) :=
  h.expression hl hrest (Nat.le_refl 1) (Nat.le_of_eq hnext) (Nat.le_of_eq hnext) hdepth hlimit

/-- A phrase is readable as one of a looser kind. -/
theorem Readable.loosen (h : Readable value p ws e) (hopens : q.opens ≤ p.opens) (hcloses : q.closes ≤ p.closes) :
    Readable value q ws e := by
  refine ⟨h.starts, ?_⟩
  intro limit depth level fuel l rest hl hrest hlevel hstop
  exact h.read limit depth level fuel hl hrest (Nat.le_trans hlevel hopens) (Nat.le_trans hstop hcloses)

/-! ### Operands -/

/-- A phrase that is read as an operand is readable. -/
theorem readable_of_operand {w : Terminal} (hw : w ≠ .rparen)
    (h : ∀ (limit depth : Nat) {t : Token} {l : List Token} {rest : Tokens}, Terminal.ofToken t = w → Written l ws →
      rest.Clean → rest.kind.level ≤ p.closes → l.length ≤ depth → l.length ≤ limit →
      ∃ e', e'.unplaced = e ∧
        operandBy value (expressionBy value limit depth) t (prepend l rest) = .ok (e', rest)) :
    Readable value p (w :: ws) e := by
  refine ⟨⟨w, ws, rfl, hw⟩, ?_⟩
  intro limit depth level fuel l rest hl hrest hlevel hstop hdepth hlimit hfuel
  obtain ⟨t, l', rfl, ht, -, hl'⟩ := hl.cons
  simp only [List.length_cons] at hdepth hlimit
  obtain ⟨e', he, hread⟩ := h limit depth ht hl' hrest hstop (by omega) (by omega)
  refine ⟨e', fuel, he, Nat.le_add_right _ _, ?_⟩
  rw [startBy, Tokens.prepend_cons, bind_of_ok (Tokens.consume_more (hrest.prepend l'))]
  exact bind_of_ok hread _

theorem readable_int {s : String} {v : Int64} (h : value s = some v) :
    Readable value .atom [.int s] (.int default s v) := by
  apply readable_of_operand (by simp)
  intro limit depth t l rest ht hl _ _ _ _
  obtain rfl := hl.nil
  have hkind : t.kind = .int := kind_of_terminal ht
  have hliteral : t.literal = s := by simpa [Terminal.ofToken, hkind] using ht
  refine ⟨.int t.start t.literal v, by rw [Expr.unplaced, hliteral], ?_⟩
  rw [operandBy, if_pos hkind, hliteral, h]
  rfl

/-- A token that is no literal starts the same operand under every rule for literals. -/
theorem operandBy_of_ne {inner : Nat → Tokens → Except SyntaxFault (Expr × Tokens)} {t : Token} {ts : Tokens}
    (h : t.kind ≠ .int) : operandBy value inner t ts = operand inner t ts := if_neg h

theorem readable_name (x : String) : Readable value .atom [.name x] (.ident default x) := by
  apply readable_of_operand (by simp)
  intro limit depth t l rest ht hl _ _ _ _
  obtain rfl := hl.nil
  have hkind : t.kind = .ident := kind_of_terminal ht
  have hliteral : t.literal = x := by simpa [Terminal.ofToken, hkind] using ht
  refine ⟨.ident t.start t.literal, by rw [Expr.unplaced, hliteral], ?_⟩
  rw [operandBy_of_ne (by simp [hkind]), operand, hkind]
  rfl

theorem Readable.group (h : Readable value .whole ws e) :
    Readable value .atom (.lparen :: (ws ++ [.rparen])) e := by
  apply readable_of_operand (by simp)
  intro limit depth t l rest ht hl hrest _ hdepth hlimit
  obtain ⟨l₁, l₂, rfl, hl₁, hl₂⟩ := hl.append
  obtain ⟨rp, rfl, hrp, -⟩ := hl₂.singleton
  simp only [List.length_append, List.length_singleton] at hdepth hlimit
  have hkind : t.kind = .lparen := kind_of_terminal ht
  have krp : rp.kind = .rparen := kind_of_terminal hrp
  obtain ⟨e', he, hread⟩ := h.before limit depth hl₁ (Tokens.clean_more rp rest)
    (by rw [Tokens.kind_more, krp]; rfl) (by omega) (by omega)
  refine ⟨e', he, ?_⟩
  rw [operandBy_of_ne (by simp [hkind]), operand, hkind, Tokens.prepend_append]
  exact (bind_of_ok hread _).trans (bind_of_ok (expect_more hrest krp .group) _)

theorem Readable.negated (h : Readable value .signed ws e) :
    Readable value .signed (.op .subtract :: ws)
      (.binary (.int default "0" 0) default Operator.subtract.number e) := by
  apply readable_of_operand (by simp)
  intro limit depth t l rest ht hl hrest hstop hdepth hlimit
  have hkind : t.kind = .minus := kind_of_terminal ht
  obtain ⟨e', he, hread⟩ := h.expression hl hrest (Nat.le_refl 7) hstop hstop hdepth hlimit
  refine ⟨.binary (.int t.start "0" 0) t.start Operator.subtract.number e', by simp [Expr.unplaced, he], ?_⟩
  rw [operandBy_of_ne (by simp [hkind]), operand, hkind]
  exact bind_of_ok hread _

theorem Readable.cond {cs ys ns : List Terminal} {c y n : Expr} (hc : Readable value .whole cs c)
    (hy : Readable value .whole ys y) (hn : Readable value .whole ns n) :
    Readable value .atom (.cond :: .lparen :: (cs ++ .comma :: (ys ++ .comma :: (ns ++ [.rparen]))))
      (.cond default default c y n default) := by
  apply readable_of_operand (by simp)
  intro limit depth t l rest ht hl hrest _ hdepth hlimit
  obtain ⟨lp, l₁, rfl, hlp, -, hl₁⟩ := hl.cons
  obtain ⟨lc, l₂, rfl, hlc, hl₂⟩ := hl₁.append
  obtain ⟨c₁, l₃, rfl, hc₁, -, hl₃⟩ := hl₂.cons
  obtain ⟨ly, l₄, rfl, hly, hl₄⟩ := hl₃.append
  obtain ⟨c₂, l₅, rfl, hc₂, -, hl₅⟩ := hl₄.cons
  obtain ⟨ln, l₆, rfl, hln, hl₆⟩ := hl₅.append
  obtain ⟨rp, rfl, hrp, -⟩ := hl₆.singleton
  simp only [List.length_append, List.length_cons, List.length_nil] at hdepth hlimit
  have hkind : t.kind = .cond := kind_of_terminal ht
  have klp : lp.kind = .lparen := kind_of_terminal hlp
  have kc₁ : c₁.kind = .comma := kind_of_terminal hc₁
  have kc₂ : c₂.kind = .comma := kind_of_terminal hc₂
  have krp : rp.kind = .rparen := kind_of_terminal hrp
  simp only [Tokens.prepend_append, Tokens.prepend_cons, Tokens.prepend_nil]
  have clean₁ := Tokens.clean_more c₁ (prepend ly (.more c₂ (prepend ln (.more rp rest))))
  have clean₂ := Tokens.clean_more c₂ (prepend ln (.more rp rest))
  have clean₃ := Tokens.clean_more rp rest
  obtain ⟨c', hc', readc⟩ := hc.before limit depth hlc clean₁ (by rw [Tokens.kind_more, kc₁]; rfl) (by omega) (by omega)
  obtain ⟨y', hy', ready⟩ := hy.before limit depth hly clean₂ (by rw [Tokens.kind_more, kc₂]; rfl) (by omega) (by omega)
  obtain ⟨n', hn', readn⟩ := hn.before limit depth hln clean₃ (by rw [Tokens.kind_more, krp]; rfl) (by omega) (by omega)
  refine ⟨.cond t.start lp.start c' y' n' rp.start, by simp [Expr.unplaced, hc', hy', hn'], ?_⟩
  rw [operandBy_of_ne (by simp [hkind]), operand, hkind]
  calc conditional (expressionBy value limit depth) t _
      = _ := bind_of_ok (expect_more (clean₁.prepend lc) klp .conditional) _
    _ = _ := bind_of_ok readc _
    _ = _ := bind_of_ok (expect_more (clean₂.prepend ly) kc₁ .conditional) _
    _ = _ := bind_of_ok ready _
    _ = _ := bind_of_ok (expect_more (clean₃.prepend ln) kc₂ .conditional) _
    _ = _ := bind_of_ok readn _
    _ = _ := bind_of_ok (expect_more hrest krp .conditional) _

theorem readable_target {x : String} (h : Target ws x) : Readable value .atom ws (.ident default x) := by
  induction h with
  | name x => exact readable_name x
  | group _ ih => exact (ih.loosen (by decide) (by decide)).group

/-! ### Operators -/

/-- A readable phrase that an operator extends is readable. -/
theorem Readable.extended {ls rs : List Terminal} {w : Terminal} {left : Expr} (hleft : Readable value q ls left)
    (hopens : p.opens ≤ q.opens) (hlow : p.opens < w.kind.level) (hhigh : w.kind.level ≤ q.closes)
    (h : ∀ (limit depth : Nat) {left' : Expr} {t : Token} {l : List Token} {rest : Tokens}, left'.unplaced = left →
      Terminal.ofToken t = w → t.Spelled → Written l rs → rest.Clean → rest.kind.level ≤ p.closes →
      l.length ≤ depth → l.length ≤ limit →
      ∃ e', e'.unplaced = e ∧
        extend (expressionBy value limit depth) limit left' t (prepend l rest) = .ok (e', rest)) :
    Readable value p (ls ++ w :: rs) e := by
  obtain ⟨v, vs, rfl, hv⟩ := hleft.starts
  refine ⟨⟨v, vs ++ w :: rs, rfl, hv⟩, ?_⟩
  intro limit depth level fuel l rest hl hrest hlevel hstop hdepth hlimit hfuel
  obtain ⟨l₁, l₂, rfl, hl₁, hl₂⟩ := hl.append
  obtain ⟨t, l₃, rfl, ht, hspelled, hl₃⟩ := hl₂.cons
  simp only [List.length_append, List.length_cons] at hdepth hlimit hfuel ⊢
  have hkind : t.kind.level = w.kind.level := by rw [kind_of_terminal ht]
  have hnext : (Tokens.more t (prepend l₃ rest)).kind.level ≤ q.closes := by rw [Tokens.kind_more, hkind]; exact hhigh
  obtain ⟨left', fuel', hleft', hfuel', hread⟩ := hleft.read limit depth level fuel hl₁
    (Tokens.clean_more t (prepend l₃ rest)) (Nat.le_trans hlevel hopens) hnext (by omega) (by omega) (by omega)
  obtain ⟨e', he, hextend⟩ := h limit depth hleft' ht hspelled hl₃ hrest hstop (by omega) (by omega)
  obtain ⟨fuel', rfl⟩ : ∃ n, fuel' = n + 1 := ⟨fuel' - 1, by omega⟩
  refine ⟨e', fuel', he, by omega, ?_⟩
  rw [Tokens.prepend_append, Tokens.prepend_cons, hread]
  exact extendAll_more (by omega) (hrest.prepend l₃) hextend

theorem extend_op {inner : Nat → Tokens → Except SyntaxFault (Expr × Tokens)} {fuel : Nat} {left : Expr} {t : Token}
    {ts : Tokens} {o : Operator} (ht : Terminal.ofToken t = .op o) (hspelled : t.Spelled) :
    extend inner fuel left t ts = do
      let (r, ts) ← inner t.kind.level ts
      return (.binary left t.start o.number r, ts) := by
  unfold extend
  split
  · rename_i hk
    simp [Terminal.ofToken, hk] at ht
  · rename_i hk
    simp [Terminal.ofToken, hk] at ht
  · rw [ofSymbol?_literal hspelled ht]

theorem Readable.joined {ls rs : List Terminal} {l r : Expr} (o : Operator)
    (hl : Readable value (.chain (tier o)) ls l) (hr : Readable value (tier o).operand rs r) :
    Readable value (.chain (tier o)) (ls ++ .op o :: rs) (.binary l default o.number r) := by
  have hlevel : (Terminal.op o).kind.level = (tier o).level := level_kind_op o
  have hpos : 3 ≤ (tier o).level := by cases tier o <;> decide
  apply hl.extended (Nat.le_refl _)
  · rw [hlevel, Phrase.opens]
    omega
  · exact Nat.le_of_eq hlevel
  intro limit depth left' t l' rest hleft ht hspelled hl' hrest hstop hdepth hlimit
  have hkind : t.kind.level = (tier o).level := level_of_op ht
  -- The right operand ends before every operator of its own tier.
  have hoperand : (tier o).level ≤ (tier o).operand.opens ∧ (tier o).level ≤ (tier o).operand.closes := by
    cases tier o <;> decide
  have hstop' : rest.kind.level ≤ (tier o).level := hstop
  obtain ⟨r', hr', hread⟩ :=
    hr.expression hl' hrest hoperand.1 (Nat.le_trans hstop' hoperand.2) hstop' hdepth hlimit
  refine ⟨.binary left' t.start o.number r', by simp [Expr.unplaced, hleft, hr'], ?_⟩
  rw [extend_op ht hspelled, hkind]
  exact bind_of_ok hread _

theorem eq_ident_of_unplaced {x : String} (h : e.unplaced = .ident default x) : ∃ p, e = .ident p x := by
  cases e with
  | ident p y =>
      cases h
      exact ⟨p, rfl⟩
  | _ => cases h

theorem Readable.assign {ts vs : List Terminal} {x : String} {v : Expr} (ht : Target ts x)
    (hv : Readable value .whole vs v) :
    Readable value .whole (ts ++ .assign :: vs) (.assign default x default v) := by
  apply (readable_target ht).extended (by decide) (by decide) (by decide)
  intro limit depth left' t l rest hleft ht _ hl hrest hstop hdepth hlimit
  obtain ⟨pos, rfl⟩ := eq_ident_of_unplaced hleft
  have hkind : t.kind = .assign := kind_of_terminal ht
  obtain ⟨v', hv', hread⟩ := hv.expression hl hrest (Nat.le_refl 1) hstop hstop hdepth hlimit
  refine ⟨.assign pos x t.start v', by simp [Expr.unplaced, hv'], ?_⟩
  rw [extend, hkind]
  exact bind_of_ok hread _

/-! ### Calls -/

theorem moreArguments_read {rp : Token} (hrp : rp.kind = .rparen) (rest : Tokens) (limit depth : Nat)
    {parts : List (List Terminal × Expr)} (hparts : ∀ a ∈ parts, Readable value .whole a.1 a.2) (fuel : Nat)
    {l : List Token} (hl : Written l ((parts.map (·.1)).flatMap (.comma :: ·))) (hfuel : l.length ≤ fuel)
    (hdepth : l.length ≤ depth) (hlimit : l.length ≤ limit) :
    (prepend l (.more rp rest)).kind.level = 1 ∧
    ∃ args, args.map Expr.unplaced = parts.map (·.2) ∧
      moreArguments (expressionBy value limit depth) fuel (prepend l (.more rp rest)) = .ok (args, .more rp rest) := by
  induction parts generalizing fuel l with
  | nil =>
      obtain rfl := hl.nil
      refine ⟨by rw [Tokens.prepend_nil, Tokens.kind_more, hrp]; rfl, [], rfl, ?_⟩
      cases fuel with
      | zero => rfl
      | succ fuel =>
          rw [moreArguments, Tokens.prepend_nil, Tokens.kind_more, hrp, if_neg (by decide)]
  | cons a parts ih =>
      obtain ⟨ha, hparts⟩ := List.forall_mem_cons.mp hparts
      rw [List.map_cons, List.flatMap_cons, List.cons_append] at hl
      obtain ⟨c, l₁, rfl, hc, -, hl₁⟩ := hl.cons
      obtain ⟨la, l₂, rfl, hla, hl₂⟩ := hl₁.append
      simp only [List.length_append, List.length_cons] at hfuel hdepth hlimit
      have hkind : c.kind = .comma := kind_of_terminal hc
      obtain ⟨fuel, rfl⟩ : ∃ n, fuel = n + 1 := ⟨fuel - 1, by omega⟩
      obtain ⟨hnext, args, hargs, hmore⟩ := ih hparts fuel hl₂ (by omega) (by omega) (by omega)
      have hclean := (Tokens.clean_more rp rest).prepend l₂
      obtain ⟨a', ha', hread⟩ := ha.before limit depth hla hclean hnext (by omega) (by omega)
      rw [Tokens.prepend_cons, Tokens.prepend_append, Tokens.kind_more, hkind]
      refine ⟨rfl, a' :: args, by simp [ha', hargs], ?_⟩
      rw [moreArguments, Tokens.kind_more, if_pos hkind]
      rw [bind_of_ok (Tokens.consume_more (hclean.prepend la))]
      exact (bind_of_ok hread _).trans (bind_of_ok hmore _)

theorem arguments_read {parts : List (List Terminal × Expr)} (hparts : ∀ a ∈ parts, Readable value .whole a.1 a.2)
    (limit depth : Nat) {l : List Token} {rest : Tokens}
    (hl : Written l ([Terminal.comma].intercalate (parts.map (·.1)) ++ [.rparen])) (hrest : rest.Clean)
    (hdepth : l.length ≤ depth) (hlimit : l.length ≤ limit) :
    ∃ args rp, args.map Expr.unplaced = parts.map (·.2) ∧
      arguments (expressionBy value limit depth) limit (prepend l rest) = .ok ((args, rp), rest) := by
  obtain ⟨l₁, l₂, rfl, hl₁, hl₂⟩ := hl.append
  obtain ⟨rp, rfl, hrp, -⟩ := hl₂.singleton
  have krp : rp.kind = .rparen := kind_of_terminal hrp
  simp only [List.length_append, List.length_singleton] at hdepth hlimit
  rw [Tokens.prepend_append, Tokens.prepend_cons, Tokens.prepend_nil]
  cases parts with
  | nil =>
      obtain rfl := hl₁.nil
      refine ⟨[], rp, rfl, ?_⟩
      rw [arguments, Tokens.prepend_nil, Tokens.kind_more, if_pos krp]
      exact bind_of_ok (Tokens.consume_more hrest) _
  | cons a parts =>
      obtain ⟨ha, hparts⟩ := List.forall_mem_cons.mp hparts
      rw [List.map_cons, intercalate_cons] at hl₁
      obtain ⟨la, l₃, rfl, hla, hl₃⟩ := hl₁.append
      rw [List.length_append] at hdepth hlimit
      obtain ⟨hnext, args, hargs, hmore⟩ :=
        moreArguments_read krp rest limit depth hparts limit hl₃ (by omega) (by omega) (by omega)
      have hclean := (Tokens.clean_more rp rest).prepend l₃
      obtain ⟨a', ha', hread⟩ := ha.before limit depth hla hclean hnext (by omega) (by omega)
      have hfirst : (prepend la (prepend l₃ (.more rp rest))).kind ≠ .rparen := by
        obtain ⟨w, vs, hws, hw⟩ := ha.starts
        rw [hws] at hla
        obtain ⟨t, l', rfl, ht, -⟩ := hla.cons
        intro hkind
        rw [Tokens.prepend_cons, Tokens.kind_more] at hkind
        simp [← ht, Terminal.ofToken, hkind] at hw
      refine ⟨a' :: args, rp, by simp [ha', hargs], ?_⟩
      rw [Tokens.prepend_append, arguments, if_neg hfirst]
      calc _ = _ := bind_of_ok hread _
        _ = _ := bind_of_ok hmore _
        _ = .ok ((a' :: args, rp), rest) := bind_of_ok (expect_more hrest krp .arguments) _

theorem Readable.call {ts : List Terminal} {x : String} {args : List (List Terminal × Expr)} (ht : Target ts x)
    (hargs : ∀ a ∈ args, Readable value .whole a.1 a.2) :
    Readable value .call (ts ++ .lparen :: ([Terminal.comma].intercalate (args.map (·.1)) ++ [.rparen]))
      (.call default x default (args.map (·.2)) default) := by
  apply (readable_target ht).extended (by decide) (by decide) (by decide)
  intro limit depth left' t l rest hleft ht _ hl hrest _ hdepth hlimit
  obtain ⟨pos, rfl⟩ := eq_ident_of_unplaced hleft
  have hkind : t.kind = .lparen := kind_of_terminal ht
  obtain ⟨args', rp, hargs', hread⟩ := arguments_read hargs limit depth hl hrest hdepth hlimit
  refine ⟨.call pos x t.start args' rp.start, by simp [Expr.unplaced, Expr.argsUnplaced_eq, hargs'], ?_⟩
  rw [extend, hkind]
  exact bind_of_ok hread _

/-- Every phrase is readable. -/
theorem readable_of_derives (h : Derives value p ws e) : Readable value p ws e := by
  induction h with
  | assign ht _ ih => exact .assign ht ih
  | compared _ ih => exact ih.loosen (by decide) (by decide)
  | joined o _ _ ihl ihr => exact ihl.joined o ihr
  | single _ ih =>
      rename_i t _ _ _
      apply ih.loosen <;> cases t <;> decide
  | negated _ ih => exact ih.negated
  | unsigned _ ih => exact ih.loosen (by decide) (by decide)
  | call _ ht _ ih => exact .call ht ih
  | uncalled _ ih => exact ih.loosen (by decide) (by decide)
  | int h => exact readable_int h
  | name x => exact readable_name x
  | group _ ih => exact ih.group
  | cond _ _ _ ihc ihy ihn => exact ihc.cond ihy ihn

end Parser

/-! ### Unambiguity -/

namespace Grammar

/-- Nothing at the front continues an expression. -/
def Ends (rs : List Terminal) : Prop := ∀ w ∈ rs.head?, w.kind.level = 1

theorem ends_nil : Ends [] := nofun

theorem ends_cons {w : Terminal} (h : w.kind.level = 1) (rs : List Terminal) : Ends (w :: rs) := by
  rintro _ ⟨⟩
  exact h

/-- The stream of tokens that write terminals. -/
def stream (ws : List Terminal) : Tokens := .prepend (ws.map Terminal.token) (.done Terminal.eof.token)

theorem stream_append (ws vs : List Terminal) : stream (ws ++ vs) = .prepend (ws.map Terminal.token) (stream vs) := by
  rw [stream, List.map_append, Tokens.prepend_append, stream]

theorem size_stream (ws : List Terminal) : (stream ws).size = ws.length := by
  simp [stream, Tokens.size]

theorem clean_stream (ws : List Terminal) : (stream ws).Clean := (Tokens.clean_done _).prepend _

theorem level_stream {rs : List Terminal} (h : Ends rs) : (stream rs).kind.level = 1 := by
  cases rs with
  | nil => rfl
  | cons w rs => exact h w rfl

variable {value : String → Option Int64} {p : Phrase} {ws ws' rs rs' : List Terminal} {e e' : Expr}

/-- A phrase in front of terminals that do not continue it is read, and they are left. -/
theorem Derives.read (h : Derives value p ws e) (hrs : Ends rs) :
    ∃ e', e'.unplaced = e ∧
      Parser.expressionBy value (ws ++ rs).length (ws ++ rs).length p.opens (stream (ws ++ rs)) =
        .ok (e', stream rs) := by
  have hlevel := level_stream hrs
  have hphrase : 1 ≤ p.opens ∧ 1 ≤ p.closes := by
    cases p with
    | chain t => cases t <;> decide
    | _ => decide
  have hlength : (ws.map Terminal.token).length ≤ (ws ++ rs).length := by simp
  rw [stream_append]
  exact (Parser.readable_of_derives h).expression (written_tokens ws) (clean_stream rs) (Nat.le_refl _)
    (by omega) (by omega) hlength hlength

/-- A sequence of terminals starts with at most one phrase of each kind that nothing continues, and it spells one
tree. -/
theorem derives_unique (h : Derives value p ws e) (h' : Derives value p ws' e') (hrs : Ends rs) (hrs' : Ends rs')
    (heq : ws ++ rs = ws' ++ rs') : ws = ws' ∧ rs = rs' ∧ e = e' := by
  obtain ⟨a, rfl, hread⟩ := h.read hrs
  obtain ⟨b, rfl, hread'⟩ := h'.read hrs'
  rw [← heq, hread] at hread'
  obtain ⟨rfl, hrest⟩ := Prod.mk.inj (Except.ok.inj hread')
  have hlength : rs.length = rs'.length := by
    rw [← size_stream, ← size_stream, hrest]
  obtain ⟨rfl, rfl⟩ := List.append_inj' heq hlength
  exact ⟨rfl, rfl, rfl⟩

theorem Sentence.phrase (h : Sentence value ws e) :
    ∃ vs rs, ws = vs ++ rs ∧ Ends rs ∧ Derives value .whole vs e := by
  cases h with
  | plain h => exact ⟨ws, [], (List.append_nil ws).symm, ends_nil, h⟩
  | closed h => exact ⟨_, [.semicolon], rfl, ends_cons rfl [], h⟩

theorem sentence_unique (h : Sentence value ws e) (h' : Sentence value ws e') : e = e' := by
  obtain ⟨vs, rs, rfl, hrs, hd⟩ := h.phrase
  obtain ⟨vs', rs', heq, hrs', hd'⟩ := h'.phrase
  exact (derives_unique hd hd' hrs hrs' heq).2.2

end Grammar

end TierCalc
