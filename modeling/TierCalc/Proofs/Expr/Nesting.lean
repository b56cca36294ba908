import Mathlib.Data.List.Basic
import TierCalc.Proofs.Expr.Exactness
import TierCalc.Proofs.Expr.Induction

/-!
# The limit on nesting

Reading an expression goes one level deeper for every operand after an operator, every argument, every part of a
conditional and every pair of parentheses, and stops at a limit.

* A higher limit changes no verdict but that of the limit itself: readings are ordered by `Approximates`, with giving up
  at the bottom, and every reader respects this order in the reader that it uses one level deeper. With as many levels
  as there are bytes and one more, nothing is too deep (`limit_irrelevant`).
* The limit bounds the nesting of the tree, in which a left operand counts as being on the level of its operator. It
  does not bound the height: operators of one level group to the left, and a chain of them is as high as it is long. It
  does bound the height of trees whose left operands are never the higher ones
  (`limit_bounds_nesting`, `chain_exceeds_limit`).
-/

namespace TierCalc

open Tokens (Ready)

theorem SyntaxFault.code_eq_nestingTooDeep {f : SyntaxFault} : f.code = .nestingTooDeep ↔ ∃ t, f = .tooDeep t := by
  cases f with
  | tooDeep t => simp [code]
  | noOperand t => by_cases ht : t.kind = .eof <;> simp [code, ht]
  | missing t within wanted => by_cases ht : t.kind = .eof ∧ wanted = .rparen <;> simp [code, ht]
  | _ => simp [code]

namespace Parser

/-! ### More levels -/

/-- Whether the first of two readings gave up for its depth, or they have one outcome. -/
inductive Approximates {α : Type} : Except SyntaxFault α → Except SyntaxFault α → Prop where
  | gaveUp (t : Token) (y : Except SyntaxFault α) : Approximates (.error (.tooDeep t)) y
  | same (x : Except SyntaxFault α) : Approximates x x

theorem Approximates.bind {α β : Type} {x y : Except SyntaxFault α} {f g : α → Except SyntaxFault β}
    (h : Approximates x y) (hfg : ∀ a, Approximates (f a) (g a)) : Approximates (x >>= f) (y >>= g) := by
  cases h with
  | gaveUp t => exact .gaveUp t _
  | same =>
      cases x with
      | error e => exact .same _
      | ok a => exact hfg a

/-- A reading that did not give up has the outcome of every reading that it approximates. -/
theorem Approximates.eq {α : Type} {x y : Except SyntaxFault α} (h : Approximates x y)
    (hx : ∀ t, x ≠ .error (.tooDeep t)) : y = x := by
  cases h with
  | gaveUp t => exact absurd rfl (hx t)
  | same => rfl

section
variable {inner deeper : Nat → Tokens → Except SyntaxFault (Expr × Tokens)}
  (h : ∀ level ts, Approximates (inner level ts) (deeper level ts))
include h

theorem conditional_approximates (t : Token) (ts : Tokens) :
    Approximates (conditional inner t ts) (conditional deeper t ts) := by
  unfold conditional
  apply Approximates.bind (.same _)
  rintro ⟨lp, ts⟩
  apply Approximates.bind (h _ ts)
  rintro ⟨c, ts⟩
  apply Approximates.bind (.same _)
  rintro ⟨comma, ts⟩
  apply Approximates.bind (h _ ts)
  rintro ⟨y, ts⟩
  apply Approximates.bind (.same _)
  rintro ⟨comma', ts⟩
  apply Approximates.bind (h _ ts)
  rintro ⟨n, ts⟩
  exact .same _

theorem operand_approximates (t : Token) (ts : Tokens) : Approximates (operand inner t ts) (operand deeper t ts) := by
  unfold operand
  split
  · exact .same _
  · exact .same _
  · apply Approximates.bind (h _ ts)
    rintro ⟨e, ts⟩
    exact .same _
  · apply Approximates.bind (h _ ts)
    rintro ⟨e, ts⟩
    exact .same _
  · exact conditional_approximates h t ts
  · exact .same _

theorem moreArguments_approximates (fuel : Nat) (ts : Tokens) :
    Approximates (moreArguments inner fuel ts) (moreArguments deeper fuel ts) := by
  induction fuel generalizing ts with
  | zero => exact .same _
  | succ fuel ih =>
      unfold moreArguments
      split
      · apply Approximates.bind (.same _)
        rintro ⟨comma, ts⟩
        apply Approximates.bind (h _ ts)
        rintro ⟨a, ts⟩
        apply Approximates.bind (ih ts)
        rintro ⟨rest, ts⟩
        exact .same _
      · exact .same _

theorem arguments_approximates (fuel : Nat) (ts : Tokens) :
    Approximates (arguments inner fuel ts) (arguments deeper fuel ts) := by
  unfold arguments
  split
  · exact .same _
  · apply Approximates.bind (h _ ts)
    rintro ⟨a, ts⟩
    apply Approximates.bind (moreArguments_approximates h fuel ts)
    rintro ⟨rest, ts⟩
    exact .same _

theorem extend_approximates (fuel : Nat) (left : Expr) (t : Token) (ts : Tokens) :
    Approximates (extend inner fuel left t ts) (extend deeper fuel left t ts) := by
  unfold extend
  split
  · split
    · apply Approximates.bind (h _ ts)
      rintro ⟨v, ts⟩
      exact .same _
    · exact .same _
  · split
    · apply Approximates.bind (arguments_approximates h fuel ts)
      rintro ⟨⟨args, rp⟩, ts⟩
      exact .same _
    · exact .same _
  · split
    · apply Approximates.bind (h _ ts)
      rintro ⟨r, ts⟩
      exact .same _
    · exact .same _

theorem extendAll_approximates (limit level fuel : Nat) (left : Expr) (ts : Tokens) :
    Approximates (extendAll inner limit level fuel left ts) (extendAll deeper limit level fuel left ts) := by
  induction fuel generalizing left ts with
  | zero => exact .same _
  | succ fuel ih =>
      unfold extendAll
      split
      · apply Approximates.bind (.same _)
        rintro ⟨t, ts⟩
        apply Approximates.bind (extend_approximates h limit left t ts)
        rintro ⟨left', ts⟩
        exact ih left' ts
      · exact .same _

end

/-- Reading with fewer levels approximates reading with more. -/
theorem expression_approximates (limit : Nat) {depth depth' : Nat} (h : depth ≤ depth') (level : Nat) (ts : Tokens) :
    Approximates (expression limit depth level ts) (expression limit depth' level ts) := by
  induction depth generalizing depth' level ts with
  | zero =>
      cases hconsume : ts.consume with
      | error f =>
          have hstops (d : Nat) : expression limit d level ts = .error f := by
            cases d <;> rw [expression, hconsume] <;> rfl
          rw [hstops, hstops]
          exact .same _
      | ok found =>
          rw [expression, hconsume]
          exact .gaveUp found.1 _
  | succ depth ih =>
      obtain ⟨depth', rfl⟩ : ∃ d, depth' = d + 1 := ⟨depth' - 1, by omega⟩
      have hinner := fun level ts => ih (Nat.le_of_succ_le_succ h) level ts
      unfold expression
      apply Approximates.bind (.same _)
      rintro ⟨t, ts⟩
      apply Approximates.bind (operand_approximates hinner t ts)
      rintro ⟨left, ts⟩
      exact extendAll_approximates hinner limit level limit left ts

theorem whole_approximates (cancelled : Bool) {d d' : Int} (h : d ≤ d') (ts : Tokens) :
    Approximates (whole cancelled d ts) (whole cancelled d' ts) := by
  unfold whole
  apply Approximates.bind (.same _)
  rintro ⟨t, rest⟩
  dsimp only
  split
  · exact .same _
  · split
    · exact .same _
    · apply Approximates.bind (expression_approximates ts.size (Int.toNat_le_toNat h) Token.Kind.lowest ts)
      rintro ⟨e, rest⟩
      exact .same _

/-! ### Enough levels -/

/-- Whether a reading leaves at most `n` tokens, or stops for another reason than its depth. -/
inductive Completes (n : Nat) {α : Type} : Except SyntaxFault (α × Tokens) → Prop where
  | ok (a : α) {rest : Tokens} (h : Ready n rest) : Completes n (.ok (a, rest))
  | error {f : SyntaxFault} (h : ∀ t, f ≠ .tooDeep t) : Completes n (.error f)

section
variable {n : Nat} {α β : Type} {inner : Nat → Tokens → Except SyntaxFault (Expr × Tokens)}

theorem Completes.bind {x : Except SyntaxFault (α × Tokens)} {f : α × Tokens → Except SyntaxFault (β × Tokens)}
    (h : Completes n x) (hf : ∀ a rest, Ready n rest → Completes n (f (a, rest))) : Completes n (x >>= f) := by
  cases h with
  | ok a hrest => exact hf a _ hrest
  | error hcode => exact .error hcode

theorem Completes.mono {m : Nat} {x : Except SyntaxFault (α × Tokens)} (h : Completes m x) (hmn : m ≤ n) :
    Completes n x := by
  cases h with
  | ok a hrest => exact .ok a ⟨hrest.proper, Nat.le_trans hrest.size_le hmn⟩
  | error hcode => exact .error hcode

theorem Completes.ne_tooDeep {x : Except SyntaxFault (α × Tokens)} (h : Completes n x) (t : Token) :
    x ≠ .error (.tooDeep t) := by
  rintro rfl
  cases h with
  | error hf => exact hf t rfl

theorem consume_completes {ts : Tokens} (h : Ready n ts) : Completes n ts.consume := by
  unfold Tokens.consume
  split
  · exact .error (by simp)
  · exact .ok _ h.tail
  · exact .ok _ h
  · exact .error (by simp)

theorem expect_completes (wanted : Token.Kind) (within : Construct) {ts : Tokens} (h : Ready n ts) :
    Completes n (expect wanted within ts) := by
  unfold expect
  split
  · exact consume_completes h
  · cases ts with
    | more t rest => exact .error (by simp)
    | done t => exact .error (by simp)
    | fault e => exact .error (by simp)

variable (hinner : ∀ level {ts}, Ready n ts → Completes n (inner level ts))
include hinner

theorem conditional_completes (t : Token) {ts : Tokens} (h : Ready n ts) : Completes n (conditional inner t ts) := by
  unfold conditional
  apply (expect_completes .lparen .conditional h).bind
  intro lp ts h
  apply (hinner _ h).bind
  intro c ts h
  apply (expect_completes .comma .conditional h).bind
  intro comma ts h
  apply (hinner _ h).bind
  intro y ts h
  apply (expect_completes .comma .conditional h).bind
  intro comma' ts h
  apply (hinner _ h).bind
  intro no ts h
  apply (expect_completes .rparen .conditional h).bind
  intro rp ts h
  exact .ok _ h

theorem operand_completes (t : Token) {ts : Tokens} (h : Ready n ts) : Completes n (operand inner t ts) := by
  unfold operand
  split
  · exact .ok _ h
  · split
    · exact .ok _ h
    · exact .error (by simp)
  · apply (hinner _ h).bind
    intro e ts h
    apply (expect_completes .rparen .group h).bind
    intro rp ts h
    exact .ok _ h
  · apply (hinner _ h).bind
    intro e ts h
    exact .ok _ h
  · exact conditional_completes hinner t h
  · exact .error (by simp)

theorem moreArguments_completes (fuel : Nat) {ts : Tokens} (h : Ready n ts) :
    Completes n (moreArguments inner fuel ts) := by
  induction fuel generalizing ts with
  | zero => exact .ok _ h
  | succ fuel ih =>
      unfold moreArguments
      split
      · apply (consume_completes h).bind
        intro comma ts h
        apply (hinner _ h).bind
        intro a ts h
        apply (ih h).bind
        intro rest ts h
        exact .ok _ h
      · exact .ok _ h

theorem arguments_completes (fuel : Nat) {ts : Tokens} (h : Ready n ts) : Completes n (arguments inner fuel ts) := by
  unfold arguments
  split
  · apply (consume_completes h).bind
    intro rp ts h
    exact .ok _ h
  · apply (hinner _ h).bind
    intro a ts h
    apply (moreArguments_completes hinner fuel h).bind
    intro rest ts h
    apply (expect_completes .rparen .arguments h).bind
    intro rp ts h
    exact .ok _ h

theorem extend_completes (fuel : Nat) (left : Expr) (t : Token) {ts : Tokens} (h : Ready n ts) :
    Completes n (extend inner fuel left t ts) := by
  unfold extend
  split
  · split
    · apply (hinner _ h).bind
      intro v ts h
      exact .ok _ h
    · exact .error (by simp)
  · split
    · apply (arguments_completes hinner fuel h).bind
      intro args ts h
      exact .ok _ h
    · exact .error (by simp)
  · split
    · apply (hinner _ h).bind
      intro r ts h
      exact .ok _ h
    · exact .error (by simp)

theorem extendAll_completes (limit level fuel : Nat) (left : Expr) {ts : Tokens} (h : Ready n ts) :
    Completes n (extendAll inner limit level fuel left ts) := by
  induction fuel generalizing left ts with
  | zero => exact .ok _ h
  | succ fuel ih =>
      unfold extendAll
      split
      · apply (consume_completes h).bind
        intro t ts h
        apply (extend_completes hinner limit left t h).bind
        intro left' ts h
        exact ih left' h
      · exact .ok _ h

end

/-- Every level takes a token, so that no more levels are needed than there are tokens, and one for the end. -/
theorem expression_completes (limit : Nat) {depth n : Nat} (hn : n < depth) (level : Nat) {ts : Tokens}
    (h : Ready n ts) : Completes n (expression limit depth level ts) := by
  induction depth generalizing n level ts with
  | zero => omega
  | succ depth ih =>
      unfold expression
      cases hconsume : ts.consume with
      | error f =>
          have hcompletes := consume_completes h
          rw [hconsume] at hcompletes
          cases hcompletes with
          | error hf => exact .error hf
      | ok found =>
          obtain ⟨t, rest⟩ := found
          by_cases ht : t.kind = .eof
          · have hnone : operand (expression limit depth) t rest = .error (.noOperand t) := by
              unfold operand
              rw [ht]
            rw [bind_of_ok rfl]
            dsimp only
            rw [hnone]
            exact .error (by simp)
          · obtain rfl := Tokens.eq_more_of_consume h.proper hconsume ht
            have hsize := h.size_le
            rw [Tokens.size] at hsize
            have hrest : Ready (n - 1) rest := ⟨h.proper.2, by omega⟩
            have hinner (level : Nat) {ts : Tokens} (h : Ready (n - 1) ts) :
                Completes (n - 1) (expression limit depth level ts) := ih (by omega) level h
            refine Completes.mono (m := n - 1) ?_ (Nat.sub_le n 1)
            apply (operand_completes hinner t hrest).bind
            intro left ts h
            exact extendAll_completes hinner limit level limit left h

theorem bind_ne_tooDeep {α β : Type} {x : Except SyntaxFault α} {f : α → Except SyntaxFault β} {t : Token}
    (first : x ≠ .error (.tooDeep t)) (next : ∀ a, f a ≠ .error (.tooDeep t)) : (x >>= f) ≠ .error (.tooDeep t) := by
  intro h
  rcases error_of_bind h with h | ⟨a, -, h⟩
  · exact first h
  · exact next a h

theorem finish_ne_tooDeep (ts : Tokens) (t : Token) : finish ts ≠ .error (.tooDeep t) := by
  have hconsume : ts.consume ≠ .error (.tooDeep t) := by
    unfold Tokens.consume
    split <;> simp
  have hpeek (ts : Tokens) : ts.peek ≠ .error (.tooDeep t) := by
    cases ts <;> simp [Tokens.peek]
  unfold finish
  dsimp only
  split <;> apply bind_ne_tooDeep
  case isTrue.first =>
    cases hfound : ts.consume with
    | error f => simpa [hfound, Functor.map, Except.map] using hconsume
    | ok found => simp [Functor.map, Except.map]
  case isFalse.first => simp [pure_ok]
  all_goals
    intro ts
    split
    · split <;> simp [throw_error, pure_ok]
    · apply bind_ne_tooDeep (hpeek ts)
      intro found
      simp [throw_error]

theorem whole_ne_tooDeep (cancelled : Bool) {d : Int} {ts : Tokens} (hts : ts.Proper) (hd : ts.size < d.toNat)
    (t : Token) : whole cancelled d ts ≠ .error (.tooDeep t) := by
  have hready : Ready ts.size ts := ⟨hts, Nat.le_refl _⟩
  unfold whole
  apply bind_ne_tooDeep ((consume_completes hready).ne_tooDeep t)
  rintro ⟨u, rest⟩
  dsimp only
  split
  · intro h
    cases h
  · split
    · intro h
      cases h
    · apply bind_ne_tooDeep ((expression_completes ts.size hd Token.Kind.lowest hready).ne_tooDeep t)
      rintro ⟨e, rest⟩
      apply bind_ne_tooDeep (finish_ne_tooDeep rest t)
      intro finished
      simp [pure_ok]

end Parser

/-! ### The verdict on a source -/

namespace Expr

theorem parse_eq_error {s : Source} {o : ParseOptions} {err : SyntaxError} (h : parse s o = .error err) :
    Parser.whole o.cancelled o.maxDepth s.tokens = .error err.fault := by
  unfold parse at h
  split at h
  · cases h
  · rename_i f hf
    obtain rfl := Except.error.inj h
    rw [hf]
    unfold SyntaxError.ofFault
    split <;> rfl

/-- A higher limit on the nesting gives the same tree or the same error, unless the lower one was too low; and a limit
above the number of bytes is never too low. -/
theorem limit_irrelevant (s : Source) (cancelled : Bool) :
    (∀ d d' : Int, d ≤ d' →
      (∀ err, parse s { maxDepth := d, cancelled := cancelled } = .error err → err.fault.code ≠ .nestingTooDeep) →
      parse s { maxDepth := d', cancelled := cancelled } = parse s { maxDepth := d, cancelled := cancelled }) ∧
    ∀ d : Int, (s.bytes.length : Int) + 1 ≤ d → ∀ err,
      parse s { maxDepth := d, cancelled := cancelled } = .error err → err.fault.code ≠ .nestingTooDeep := by
  constructor
  · intro d d' hd hverdict
    have heq : Parser.whole cancelled d' s.tokens = Parser.whole cancelled d s.tokens := by
      apply (Parser.whole_approximates cancelled hd s.tokens).eq
      intro t ht
      refine hverdict (.ofFault s (.tooDeep t)) ?_ rfl
      unfold parse
      rw [ht]
    unfold parse
    rw [heq]
  · intro d hd err herr hcode
    obtain ⟨t, ht⟩ := SyntaxFault.code_eq_nestingTooDeep.mp hcode
    have hwhole := parse_eq_error herr
    rw [ht] at hwhole
    have hsize : s.tokens.size ≤ s.bytes.length := Lexer.size_stream_le s.file s.cursor
    have hroom : s.tokens.size < d.toNat := by omega
    exact Parser.whole_ne_tooDeep cancelled (Lexer.stream_proper s.file s.cursor) hroom t hwhole

def loneMinus : Source := ⟨[45], ""⟩

theorem loneMinus_tokens : loneMinus.tokens = .more (tokenAt 0 .minus "-") (.done (tokenAt 1 .eof "")) := by
  rw [Source.tokens, Lexer.stream_more (by decide) rfl, Lexer.stream_done (by decide)]
  decide

/-- A minus sign without an operand needs a level more than it has bytes; then all limits give one error. -/
theorem loneMinus_irrelevant :
    (∃ err, parse loneMinus { maxDepth := 1 } = .error err ∧ err.fault.code = .nestingTooDeep) ∧
      parse loneMinus { maxDepth := 2 } = .error ⟨.noOperand (tokenAt 1 .eof ""), "", [45]⟩ ∧
      parse loneMinus { maxDepth := 256 } = .error ⟨.noOperand (tokenAt 1 .eof ""), "", [45]⟩ := by
  obtain ⟨hraise, henough⟩ := limit_irrelevant loneMinus false
  have hone : parse loneMinus { maxDepth := 1 } = .error ⟨.tooDeep (tokenAt 1 .eof ""), "", [45]⟩ := by
    rw [parse, loneMinus_tokens]
    rfl
  have htwo : parse loneMinus { maxDepth := 2 } = .error ⟨.noOperand (tokenAt 1 .eof ""), "", [45]⟩ := by
    rw [parse, loneMinus_tokens]
    rfl
  exact ⟨⟨_, hone, rfl⟩, htwo, (hraise 2 256 (by decide) (henough 2 (by decide))).trans htwo⟩

end Expr

/-! ### The height of a tree -/

namespace Expr

mutual

/-- The number of nodes on the longest way from the root to a leaf. -/
def height : Expr → Nat
  | int _ _ _ => 1
  | ident _ _ => 1
  | binary l _ _ r => max l.height r.height + 1
  | assign _ _ _ v => v.height + 1
  | call _ _ _ args _ => argsHeight args + 1
  | cond _ _ c y n _ => max c.height (max y.height n.height) + 1

def argsHeight : List Expr → Nat
  | [] => 0
  | a :: rest => max a.height (argsHeight rest)

end

mutual

/-- The number of expressions that are nested in one another, where a left operand is on the level of its operator. -/
def nesting : Expr → Nat
  | int _ _ _ => 1
  | ident _ _ => 1
  | binary l _ _ r => max l.nesting (r.nesting + 1)
  | assign _ _ _ v => v.nesting + 1
  | call _ _ _ args _ => argsNesting args + 1
  | cond _ _ c y n _ => max c.nesting (max y.nesting n.nesting) + 1

/-- The nesting of the most deeply nested argument. -/
def argsNesting : List Expr → Nat
  | [] => 0
  | a :: rest => max a.nesting (argsNesting rest)

end

mutual

/-- The largest number of left operands on a way from the root that are higher than the right operand beside them. -/
def overhang : Expr → Nat
  | int _ _ _ => 0
  | ident _ _ => 0
  | binary l _ _ r => max (if r.height < l.height then l.overhang + 1 else l.overhang) r.overhang
  | assign _ _ _ v => v.overhang
  | call _ _ _ args _ => argsOverhang args
  | cond _ _ c y n _ => max c.overhang (max y.overhang n.overhang)

def argsOverhang : List Expr → Nat
  | [] => 0
  | a :: rest => max a.overhang (argsOverhang rest)

end

/-- The trees in which no left operand is higher than the right operand beside it. -/
inductive RightHigh : Expr → Prop where
  | int (pos : Position) (literal : String) (v : Int64) : RightHigh (.int pos literal v)
  | ident (pos : Position) (name : String) : RightHigh (.ident pos name)
  | binary {l r : Expr} (pos : Position) (op : UInt8) (hl : RightHigh l) (hr : RightHigh r)
      (hle : l.height ≤ r.height) : RightHigh (.binary l pos op r)
  | assign {v : Expr} (pos : Position) (name : String) (eqPos : Position) (hv : RightHigh v) :
      RightHigh (.assign pos name eqPos v)
  | call {args : List Expr} (pos : Position) (name : String) (lparen rparen : Position)
      (hargs : ∀ a ∈ args, RightHigh a) : RightHigh (.call pos name lparen args rparen)
  | cond {c y n : Expr} (pos lparen rparen : Position) (hc : RightHigh c) (hy : RightHigh y) (hn : RightHigh n) :
      RightHigh (.cond pos lparen c y n rparen)

theorem argsOverhang_eq_zero {args : List Expr} (h : ∀ a ∈ args, a.overhang = 0) : argsOverhang args = 0 := by
  induction args with
  | nil => rfl
  | cons a rest ih =>
      rw [List.forall_mem_cons] at h
      rw [argsOverhang, h.1, ih h.2, Nat.max_self]

theorem RightHigh.overhang_eq_zero {e : Expr} (h : e.RightHigh) : e.overhang = 0 := by
  induction h with
  | int => rfl
  | ident => rfl
  | binary _ _ _ _ hle ihl ihr => rw [overhang, if_neg (by omega), ihl, ihr, Nat.max_self]
  | assign _ _ _ _ ih => rw [overhang, ih]
  | call _ _ _ _ _ ih => rw [overhang, argsOverhang_eq_zero ih]
  | cond _ _ _ _ _ _ ihc ihy ihn => rw [overhang, ihc, ihy, ihn, Nat.max_self, Nat.max_self]

theorem argsHeight_le {args : List Expr} (h : ∀ a ∈ args, a.height ≤ a.nesting + a.overhang) :
    argsHeight args ≤ argsNesting args + argsOverhang args := by
  induction args with
  | nil => exact Nat.zero_le _
  | cons a rest ih =>
      rw [List.forall_mem_cons] at h
      have hrest := ih h.2
      simp only [argsHeight, argsNesting, argsOverhang]
      omega

/-- A tree is higher than it is nested only by left operands that stand out. -/
theorem height_le (e : Expr) : e.height ≤ e.nesting + e.overhang := by
  induction e using nodeInduction with
  | int => exact Nat.le_refl 1
  | ident => exact Nat.le_refl 1
  | binary l _ _ r ihl ihr =>
      simp only [height, nesting, overhang]
      split <;> omega
  | assign _ _ _ v ih =>
      simp only [height, nesting, overhang]
      omega
  | call _ _ _ args _ ih =>
      have hargs := argsHeight_le ih
      simp only [height, nesting, overhang]
      omega
  | cond _ _ c y n _ ihc ihy ihn =>
      simp only [height, nesting, overhang]
      omega

end Expr

namespace Parser

/-! ### What the limit bounds -/

section
variable {inner : Nat → Tokens → Except SyntaxFault (Expr × Tokens)} {depth : Nat}
  (hinner : ∀ {level ts e rest}, inner level ts = .ok (e, rest) → e.nesting ≤ depth)
include hinner

theorem conditional_nesting {t : Token} {ts rest : Tokens} {e : Expr} (h : conditional inner t ts = .ok (e, rest)) :
    e.nesting ≤ depth + 1 := by
  unfold conditional at h
  obtain ⟨⟨lp, ts₁⟩, -, h⟩ := ok_of_bind h
  obtain ⟨⟨c, ts₂⟩, hc, h⟩ := ok_of_bind h
  obtain ⟨⟨c₁, ts₃⟩, -, h⟩ := ok_of_bind h
  obtain ⟨⟨y, ts₄⟩, hy, h⟩ := ok_of_bind h
  obtain ⟨⟨c₂, ts₅⟩, -, h⟩ := ok_of_bind h
  obtain ⟨⟨n, ts₆⟩, hn, h⟩ := ok_of_bind h
  obtain ⟨⟨rp, ts₇⟩, -, h⟩ := ok_of_bind h
  cases h
  have hc := hinner hc
  have hy := hinner hy
  have hn := hinner hn
  simp only [Expr.nesting]
  omega

theorem operand_nesting {t : Token} {ts rest : Tokens} {e : Expr} (h : operand inner t ts = .ok (e, rest)) :
    e.nesting ≤ depth + 1 := by
  unfold operand at h
  split at h
  · cases h
    exact Nat.le_add_left 1 depth
  · split at h
    · cases h
      exact Nat.le_add_left 1 depth
    · cases h
  · obtain ⟨⟨e, ts₁⟩, he, h⟩ := ok_of_bind h
    obtain ⟨⟨rp, ts₂⟩, -, h⟩ := ok_of_bind h
    cases h
    exact Nat.le_succ_of_le (hinner he)
  · obtain ⟨⟨e, ts₁⟩, he, h⟩ := ok_of_bind h
    cases h
    have he := hinner he
    simp only [Expr.nesting]
    omega
  · exact conditional_nesting hinner h
  · cases h

theorem moreArguments_nesting {fuel : Nat} {ts rest : Tokens} {args : List Expr}
    (h : moreArguments inner fuel ts = .ok (args, rest)) : Expr.argsNesting args ≤ depth := by
  induction fuel generalizing ts args with
  | zero =>
      cases h
      exact Nat.zero_le depth
  | succ fuel ih =>
      unfold moreArguments at h
      split at h
      · obtain ⟨⟨comma, ts₁⟩, -, h⟩ := ok_of_bind h
        obtain ⟨⟨a, ts₂⟩, ha, h⟩ := ok_of_bind h
        obtain ⟨⟨more, ts₃⟩, hmore, h⟩ := ok_of_bind h
        cases h
        exact Nat.max_le.mpr ⟨hinner ha, ih hmore⟩
      · cases h
        exact Nat.zero_le depth

theorem arguments_nesting {fuel : Nat} {ts rest : Tokens} {args : List Expr} {rp : Token}
    (h : arguments inner fuel ts = .ok ((args, rp), rest)) : Expr.argsNesting args ≤ depth := by
  unfold arguments at h
  split at h
  · obtain ⟨⟨rp, ts₁⟩, -, h⟩ := ok_of_bind h
    cases h
    exact Nat.zero_le depth
  · obtain ⟨⟨a, ts₁⟩, ha, h⟩ := ok_of_bind h
    obtain ⟨⟨more, ts₂⟩, hmore, h⟩ := ok_of_bind h
    obtain ⟨⟨rp, ts₃⟩, -, h⟩ := ok_of_bind h
    cases h
    exact Nat.max_le.mpr ⟨hinner ha, moreArguments_nesting hinner hmore⟩

theorem extend_nesting {fuel : Nat} {left e : Expr} (hleft : left.nesting ≤ depth + 1) {t : Token} {ts rest : Tokens}
    (h : extend inner fuel left t ts = .ok (e, rest)) : e.nesting ≤ depth + 1 := by
  unfold extend at h
  split at h
  · split at h
    · obtain ⟨⟨v, ts₁⟩, hv, h⟩ := ok_of_bind h
      cases h
      exact Nat.succ_le_succ (hinner hv)
    · cases h
  · split at h
    · obtain ⟨⟨⟨args, rp⟩, ts₁⟩, hargs, h⟩ := ok_of_bind h
      cases h
      exact Nat.succ_le_succ (arguments_nesting hinner hargs)
    · cases h
  · split at h
    · obtain ⟨⟨r, ts₁⟩, hr, h⟩ := ok_of_bind h
      cases h
      exact Nat.max_le.mpr ⟨hleft, Nat.succ_le_succ (hinner hr)⟩
    · cases h

/-- However many operators follow, the operand on their left stays on its level. -/
theorem extendAll_nesting {limit level fuel : Nat} {left e : Expr} (hleft : left.nesting ≤ depth + 1) {ts rest : Tokens}
    (h : extendAll inner limit level fuel left ts = .ok (e, rest)) : e.nesting ≤ depth + 1 := by
  induction fuel generalizing left ts with
  | zero =>
      cases h
      exact hleft
  | succ fuel ih =>
      unfold extendAll at h
      split at h
      · obtain ⟨⟨t, ts₁⟩, -, h⟩ := ok_of_bind h
        obtain ⟨⟨left', ts₂⟩, hextend, h⟩ := ok_of_bind h
        exact ih (extend_nesting hinner hleft hextend) h
      · cases h
        exact hleft

end

/-- A tree is nested no more deeply than it may be. -/
theorem expression_nesting {limit depth level : Nat} {ts rest : Tokens} {e : Expr}
    (h : expression limit depth level ts = .ok (e, rest)) : e.nesting ≤ depth := by
  induction depth generalizing level ts rest e with
  | zero =>
      obtain ⟨_, _, h⟩ := ok_of_bind h
      cases h
  | succ depth ih =>
      obtain ⟨⟨t, ts₁⟩, -, h⟩ := ok_of_bind h
      obtain ⟨⟨left, ts₂⟩, hleft, h⟩ := ok_of_bind h
      exact extendAll_nesting ih (operand_nesting ih hleft) h

end Parser

namespace Expr

/-- The limit bounds the nesting of the tree that is read. The tree is higher than the limit at most by the number of
left operands on one way through it that are higher than the right operand beside them. -/
theorem limit_bounds_nesting {s : Source} {d : Int} (hd : 1 ≤ d) {cancelled : Bool} {e : Expr}
    (h : parse s { maxDepth := d, cancelled := cancelled } = .ok e) :
    (e.nesting : Int) ≤ d ∧ (e.height : Int) ≤ d + e.overhang ∧ (e.RightHigh → (e.height : Int) ≤ d) := by
  obtain ⟨rest, he, -⟩ := Parser.whole_eq_ok (parse_eq_ok.mp h)
  have hnesting : e.nesting ≤ d.toNat := Parser.expression_nesting he
  have hheight := e.height_le
  refine ⟨by omega, by omega, fun hright => ?_⟩
  rw [hright.overhang_eq_zero] at hheight
  omega

def chain : Source := ⟨[49, 43, 49, 43, 49], ""⟩

/-- The sum of a sum and a number. -/
def chainTree : Expr :=
  .binary
    (.binary (.int { offset := 0, column := 0 } "1" 1) { offset := 1, column := 1 } Operator.add.number
      (.int { offset := 2, column := 2 } "1" 1))
    { offset := 3, column := 3 } Operator.add.number (.int { offset := 4, column := 4 } "1" 1)

theorem parse_chain : parse chain { maxDepth := 2 } = .ok chainTree := by
  have htokens : chain.tokens = Tokens.prepend
      [tokenAt 0 .int "1", tokenAt 1 .plus "+", tokenAt 2 .int "1", tokenAt 3 .plus "+", tokenAt 4 .int "1"]
      (.done (tokenAt 5 .eof "")) := by
    rw [Source.tokens, Lexer.stream_more (by decide) rfl, Lexer.stream_more (by decide) rfl,
      Lexer.stream_more (by decide) rfl, Lexer.stream_more (by decide) rfl, Lexer.stream_more (by decide) rfl,
      Lexer.stream_done (by decide)]
    decide
  rw [parse, htokens]
  rfl

/-- The chain is nested twice, and higher by its one left operand that stands out. -/
theorem chain_nesting :
    (1 : Int) ≤ 2 ∧ parse chain { maxDepth := 2 } = .ok chainTree ∧ (chainTree.nesting : Int) ≤ 2 ∧
      (chainTree.height : Int) ≤ 2 + 1 := by
  obtain ⟨hnesting, hheight, -⟩ := limit_bounds_nesting (by decide) parse_chain
  have hoverhang : chainTree.overhang = 1 := rfl
  rw [hoverhang] at hheight
  exact ⟨by decide, parse_chain, hnesting, hheight⟩

/-- The chain is read with a limit of two, and its tree has a height of three. -/
theorem chain_exceeds_limit :
    (1 : Int) ≤ 2 ∧ parse chain { maxDepth := 2 } = .ok chainTree ∧ ¬ (chainTree.height : Int) ≤ 2 := by
  refine ⟨by decide, parse_chain, ?_⟩
  have hheight : chainTree.height = 3 := rfl
  rw [hheight]
  decide

end Expr

end TierCalc
