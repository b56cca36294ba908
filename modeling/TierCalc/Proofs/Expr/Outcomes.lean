import TierCalc.Expr.Parser

/-!
# What all readers keep

The readers of expressions take tokens off a stream and use a reader one level deeper. So a property of streams is kept
by all of them, and a property of faults holds of all faults that they find, if this is so for a single token.

* `Outcome`: what a reading leaves if it succeeds, and what its fault is like if it fails.
* `Regime` collects what has to be shown for single tokens; `operand_outcome` and `extendAll_outcome` carry it to the
  readers, `finish_outcome` to the end of the stream.
-/

namespace TierCalc.Parser

/-- Whether a reading leaves what it should, or has a fault as it should. -/
inductive Outcome (F : SyntaxFault → Prop) {α : Type} (R : α → Prop) : Except SyntaxFault α → Prop where
  | ok {a : α} (h : R a) : Outcome F R (.ok a)
  | error {f : SyntaxFault} (h : F f) : Outcome F R (.error f)

namespace Outcome

variable {F : SyntaxFault → Prop} {α β : Type} {R : α → Prop} {R' : β → Prop} {x : Except SyntaxFault α}

theorem bind {f : α → Except SyntaxFault β} (h : Outcome F R x) (hf : ∀ a, R a → Outcome F R' (f a)) :
    Outcome F R' (x >>= f) := by
  cases h with
  | ok h => exact hf _ h
  | error h => exact .error h

theorem map {f : α → β} (h : Outcome F R x) (hf : ∀ a, R a → R' (f a)) : Outcome F R' (f <$> x) := by
  cases h with
  | ok h => exact .ok (hf _ h)
  | error h => exact .error h

theorem leaves {a : α} (h : Outcome F R x) (hx : x = .ok a) : R a := by
  subst hx
  cases h with
  | ok h => exact h

theorem fault {f : SyntaxFault} (h : Outcome F R x) (hx : x = .error f) : F f := by
  subst hx
  cases h with
  | error h => exact h

end Outcome

/-- A property of streams, one of the tokens that are taken off, and one of faults, such that no single step leads out
of them. -/
structure Regime where
  stream : Tokens → Prop
  token : Token → Prop
  fault : SyntaxFault → Prop
  consume : ∀ {ts}, stream ts → Outcome fault (fun r => token r.1 ∧ stream r.2) ts.consume
  peek : ∀ {ts}, stream ts → Outcome fault token ts.peek
  noOperand : ∀ {t}, token t → fault (.noOperand t)
  outOfRange : ∀ {t}, token t → fault (.outOfRange t)
  badTarget : ∀ {t} target, token t → fault (.badTarget t target)
  notCallable : ∀ {t}, token t → fault (.notCallable t)
  missing : ∀ {t} within wanted, token t → fault (.missing t within wanted)
  trailing : ∀ {t}, token t → fault (.trailing t)

/-- Whether a reading leaves a stream with the property. -/
abbrev Regime.Keeps (G : Regime) {α : Type} (x : Except SyntaxFault (α × Tokens)) : Prop :=
  Outcome G.fault (fun r => G.stream r.2) x

section
variable {G : Regime} {inner : Nat → Tokens → Except SyntaxFault (Expr × Tokens)} {t : Token} {ts : Tokens}

theorem expect_outcome (wanted : Token.Kind) (within : Construct) (h : G.stream ts) :
    Outcome G.fault (fun r => G.token r.1 ∧ G.stream r.2) (expect wanted within ts) := by
  unfold expect
  split
  · exact G.consume h
  · apply (G.peek h).bind
    intro t ht
    exact .error (G.missing within wanted ht)

theorem finish_outcome (h : G.stream ts) : Outcome G.fault (fun _ => True) (finish ts) := by
  unfold finish
  dsimp only
  split <;> apply Outcome.bind (R := G.stream)
  case isTrue.h => exact (G.consume h).map fun r hr => hr.2
  case isFalse.h => exact .ok h
  all_goals
    intro ts h
    split
    · split
      · exact .error ((G.consume h).fault rfl)
      · exact .ok trivial
    · apply (G.peek h).bind
      intro t ht
      exact .error (G.trailing ht)

variable (hinner : ∀ level {ts}, G.stream ts → G.Keeps (inner level ts))
include hinner

theorem conditional_outcome (t : Token) (h : G.stream ts) : G.Keeps (conditional inner t ts) := by
  unfold conditional
  apply (expect_outcome .lparen .conditional h).bind
  rintro ⟨lp, ts⟩ ⟨-, h⟩
  apply (hinner _ h).bind
  rintro ⟨c, ts⟩ h
  apply (expect_outcome .comma .conditional h).bind
  rintro ⟨comma, ts⟩ ⟨-, h⟩
  apply (hinner _ h).bind
  rintro ⟨y, ts⟩ h
  apply (expect_outcome .comma .conditional h).bind
  rintro ⟨comma', ts⟩ ⟨-, h⟩
  apply (hinner _ h).bind
  rintro ⟨n, ts⟩ h
  apply (expect_outcome .rparen .conditional h).bind
  rintro ⟨rp, ts⟩ ⟨-, h⟩
  exact .ok h

theorem operand_outcome (ht : G.token t) (h : G.stream ts) : G.Keeps (operand inner t ts) := by
  unfold operand
  split
  · exact .ok h
  · split
    · exact .ok h
    · exact .error (G.outOfRange ht)
  · apply (hinner _ h).bind
    rintro ⟨e, ts⟩ h
    apply (expect_outcome .rparen .group h).bind
    rintro ⟨rp, ts⟩ ⟨-, h⟩
    exact .ok h
  · apply (hinner _ h).bind
    rintro ⟨e, ts⟩ h
    exact .ok h
  · exact conditional_outcome hinner t h
  · exact .error (G.noOperand ht)

theorem moreArguments_outcome (fuel : Nat) (h : G.stream ts) : G.Keeps (moreArguments inner fuel ts) := by
  induction fuel generalizing ts with
  | zero => exact .ok h
  | succ fuel ih =>
      unfold moreArguments
      split
      · apply (G.consume h).bind
        rintro ⟨comma, ts⟩ ⟨-, h⟩
        apply (hinner _ h).bind
        rintro ⟨a, ts⟩ h
        apply (ih h).bind
        rintro ⟨rest, ts⟩ h
        exact .ok h
      · exact .ok h

theorem arguments_outcome (fuel : Nat) (h : G.stream ts) : G.Keeps (arguments inner fuel ts) := by
  unfold arguments
  split
  · apply (G.consume h).bind
    rintro ⟨rp, ts⟩ ⟨-, h⟩
    exact .ok h
  · apply (hinner _ h).bind
    rintro ⟨a, ts⟩ h
    apply (moreArguments_outcome hinner fuel h).bind
    rintro ⟨rest, ts⟩ h
    apply (expect_outcome .rparen .arguments h).bind
    rintro ⟨rp, ts⟩ ⟨-, h⟩
    exact .ok h

theorem extend_outcome (fuel : Nat) (left : Expr) (ht : G.token t) (h : G.stream ts) :
    G.Keeps (extend inner fuel left t ts) := by
  unfold extend
  split
  · split
    · apply (hinner _ h).bind
      rintro ⟨v, ts⟩ h
      exact .ok h
    · exact .error (G.badTarget left ht)
  · split
    · apply (arguments_outcome hinner fuel h).bind
      rintro ⟨⟨args, rp⟩, ts⟩ h
      exact .ok h
    · exact .error (G.notCallable ht)
  · split
    · apply (hinner _ h).bind
      rintro ⟨r, ts⟩ h
      exact .ok h
    · exact .error (G.noOperand ht)

theorem extendAll_outcome (limit level fuel : Nat) (left : Expr) (h : G.stream ts) :
    G.Keeps (extendAll inner limit level fuel left ts) := by
  induction fuel generalizing left ts with
  | zero => exact .ok h
  | succ fuel ih =>
      unfold extendAll
      split
      · apply (G.consume h).bind
        rintro ⟨t, ts⟩ ⟨ht, h⟩
        apply (extend_outcome hinner limit left ht h).bind
        rintro ⟨left', ts⟩ h
        exact ih left' h
      · exact .ok h

end

end TierCalc.Parser
