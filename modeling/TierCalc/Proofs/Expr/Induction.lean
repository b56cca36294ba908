import TierCalc.Expr.Names

/-!
# Induction over expressions

The arguments of a call are expressions too, so the induction hypothesis for a call speaks of all its arguments.
-/

namespace TierCalc.Expr

@[elab_as_elim]
theorem nodeInduction {motive : Expr → Prop}
    (int : ∀ pos literal value, motive (int pos literal value))
    (ident : ∀ pos name, motive (ident pos name))
    (binary : ∀ left opPos op right, motive left → motive right → motive (binary left opPos op right))
    (assign : ∀ namePos name eqPos value, motive value → motive (assign namePos name eqPos value))
    (call : ∀ namePos name lparen args rparen, (∀ a ∈ args, motive a) → motive (call namePos name lparen args rparen))
    (cond : ∀ ifPos lparen test yes no rparen, motive test → motive yes → motive no →
      motive (cond ifPos lparen test yes no rparen)) (e : Expr) : motive e :=
  @Expr.rec motive (fun args => ∀ a ∈ args, motive a) int ident binary assign call cond
    (fun _ h => absurd h List.not_mem_nil)
    (fun _ _ ha hrest b hb => (List.mem_cons.mp hb).elim (fun h => h ▸ ha) (hrest b)) e

end TierCalc.Expr
