import Mathlib.Tactic.Common
import TierCalc.Proofs.Eval.Sequencing

/-!
# What evaluation does and what it depends on

* Only builtins touch the world, one after another. Whatever each of them does to it, evaluation does as well, for
  anything that can be said of no steps and of two steps in a row (`eval_world`).
* Of the bindings under an overlay, evaluation uses those of the names that the expression reads. Over two bindings that
  agree on these, it makes the same assignments and has the same value, or fails in the same way (`eval_parallel`). Only
  the hint of an error may look at other names.
* If all operator numbers mean an operator, evaluation never meets one that does not (`eval_operable`).
-/

namespace TierCalc

/-- Whether two faults are the same but for the hint. -/
inductive Fault.Alike : Fault → Fault → Prop where
  | error {e f : EvalError} (cause : e.cause = f.cause) (location : e.location = f.location) :
      Alike (.error e) (.error f)
  | invalidOperator (n : UInt8) : Alike (.invalidOperator n) (.invalidOperator n)

theorem Fault.Alike.refl (f : Fault) : f.Alike f := by
  cases f with
  | error e => exact .error rfl rfl
  | invalidOperator n => exact .invalidOperator n

/-- Whether two runs on overlays over `b` and `c` did the same: they have one value or faults that are alike, the same
assignments, and the same world. -/
inductive Run.Parallel {τ α : Type} (b c : Bindings) : Run Overlay τ α → Run Overlay τ α → Prop where
  | value (v : α) (w : Bindings) (t : τ) : Parallel b c ⟨.ok v, ⟨b, w⟩, t⟩ ⟨.ok v, ⟨c, w⟩, t⟩
  | fault {f g : Fault} (h : f.Alike g) (w : Bindings) (t : τ) :
      Parallel b c ⟨.error f, ⟨b, w⟩, t⟩ ⟨.error g, ⟨c, w⟩, t⟩

namespace Expr

/-! ### The world -/

section
variable {σ τ : Type} [Scope σ] {R : τ → τ → Prop} {fns : Builtins τ}

/-- Evaluation does to the world what builtins do, any number of times. -/
theorem eval_world (hrefl : ∀ t, R t t) (htrans : ∀ t u v, R t u → R u v → R t v)
    (hfns : ∀ f ∈ fns.entries, ∀ args t, R t (f.run args t).2) (e : Expr) (s : σ) (t : τ) :
    R t (e.eval fns s t).world := by
  have h : Sequential (ρ := σ) fns fns e.reads e.writes e.operators
      fun α (f : σ → τ → Run σ τ α) _ => ∀ s t, R t (f s t).world :=
    { done := fun _ _ t => hrefl t
      andThen := by
        intro α β f _ next _ hf hnext s t
        have hfirst := hf s t
        dsimp only
        generalize f s t = run at hfirst ⊢
        rcases run with ⟨fault | a, s', t'⟩
        · exact hfirst
        · exact htrans _ _ _ hfirst (hnext a s' t')
      read := by
        intro name _ p s t
        simp only [eval]
        cases Scope.get? s name with
        | none => exact hrefl t
        | some v => exact hrefl t
      write := fun _ _ _ _ t => hrefl t
      operator := fun _ _ _ _ _ _ t => hrefl t
      refuse := fun hresolve => ⟨hresolve, fun _ t => hrefl t⟩
      call := fun hresolve => ⟨_, hresolve, fun vs _ t => hfns _ (mem_of_resolve hresolve) vs t⟩ }
  exact h.eval s t

end

/-! ### The bindings below -/

section
variable {τ : Type} {fns : Builtins τ} {b c : Bindings}

/-- Over bindings that agree on the names an expression reads, evaluation does the same. -/
theorem eval_parallel (e : Expr) (hagree : ∀ n ∈ e.reads, b.get? n = c.get? n) (w : Bindings) (t : τ) :
    Run.Parallel b c (e.eval fns ⟨b, w⟩ t) (e.eval fns ⟨c, w⟩ t) := by
  have hdone {α : Type} (result : Except Fault α) (w : Bindings) (t : τ) :
      Run.Parallel b c ⟨result, ⟨b, w⟩, t⟩ ⟨result, ⟨c, w⟩, t⟩ := by
    cases result with
    | error f => exact .fault (.refl f) w t
    | ok a => exact .value a w t
  have h : Sequential fns fns e.reads e.writes e.operators fun α (f g : Overlay → τ → Run Overlay τ α) =>
      ∀ w t, Run.Parallel b c (f ⟨b, w⟩ t) (g ⟨c, w⟩ t) :=
    { done := fun a => hdone (.ok a)
      andThen := by
        intro α β f g next next' hf hnext w t
        have hfirst := hf w t
        dsimp only
        generalize f ⟨b, w⟩ t = x at hfirst ⊢
        generalize g ⟨c, w⟩ t = y at hfirst ⊢
        cases hfirst with
        | fault halike w t => exact .fault halike w t
        | value a w t => exact hnext a w t
      read := by
        intro name hname p w t
        have hget : Scope.get? (⟨b, w⟩ : Overlay) name = Scope.get? (⟨c, w⟩ : Overlay) name := by
          change (w.get? name).or (b.get? name) = (w.get? name).or (c.get? name)
          rw [hagree name hname]
        simp only [eval, hget]
        cases Scope.get? (⟨c, w⟩ : Overlay) name with
        | none =>
            refine .fault ?_ w t
            exact .error rfl rfl
        | some v => exact .value v w t
      write := fun name _ v w t => .value v (w.set name v) t
      operator := fun op _ p x y => hdone (combine op p x y)
      refuse := fun hresolve => ⟨hresolve, hdone (.error _)⟩
      call := fun {_ _ _ f} hresolve => ⟨f, hresolve, fun vs w t => .value (f.run vs t).1 w (f.run vs t).2⟩ }
  exact h.eval w t

end

/-! ### Operators -/

/-- Whether all operator numbers of an expression mean an operator. -/
inductive Operable : Expr → Prop where
  | int (p : Position) (literal : String) (v : Int64) : Operable (int p literal v)
  | ident (p : Position) (name : String) : Operable (ident p name)
  | binary {l r : Expr} (p : Position) {op : UInt8} (ho : (Operator.ofNumber? op).isSome = true) (hl : Operable l)
      (hr : Operable r) : Operable (binary l p op r)
  | assign (p : Position) (name : String) (q : Position) {v : Expr} (hv : Operable v) : Operable (assign p name q v)
  | call (p : Position) (name : String) (q : Position) {args : List Expr} (r : Position)
      (hargs : ∀ a ∈ args, Operable a) : Operable (call p name q args r)
  | cond (p q : Position) {c y n : Expr} (r : Position) (hc : Operable c) (hy : Operable y) (hn : Operable n) :
      Operable (cond p q c y n r)

section
variable {σ τ : Type} [Scope σ] {fns : Builtins τ}

theorem resolve_ne_invalidOperator (fns : Builtins τ) (p : Position) (name : String) (count : Nat) (number : UInt8) :
    resolve fns p name count ≠ .error (.invalidOperator number) := by
  unfold resolve
  split
  · simp
  · split_ifs <;> simp

theorem combine_ne_invalidOperator {op : UInt8} (ho : (Operator.ofNumber? op).isSome = true) (p : Position)
    (x y : Int64) (number : UInt8) : combine op p x y ≠ .error (.invalidOperator number) := by
  obtain ⟨o, ho⟩ := Option.isSome_iff_exists.mp ho
  unfold combine
  rw [ho]
  dsimp only
  split <;> simp

theorem Operable.operators {e : Expr} (he : e.Operable) :
    ∀ op ∈ e.operators, (Operator.ofNumber? op).isSome = true := by
  induction he with
  | int => simp [Expr.operators]
  | ident => simp [Expr.operators]
  | binary _ ho _ _ ihl ihr =>
      simp only [Expr.operators, List.forall_mem_cons, List.forall_mem_append]
      exact ⟨ho, ihl, ihr⟩
  | assign _ _ _ _ ih => exact ih
  | call _ _ _ _ _ ih =>
      rw [Expr.operators, argsOperators_eq, List.forall_mem_flatMap]
      exact ih
  | cond _ _ _ _ _ _ ihc ihy ihn =>
      simp only [Expr.operators, List.forall_mem_append]
      exact ⟨ihc, ihy, ihn⟩

theorem eval_operable {e : Expr} (he : e.Operable) (s : σ) (t : τ) (number : UInt8) :
    (e.eval fns s t).result ≠ .error (.invalidOperator number) := by
  have h : Sequential (ρ := σ) fns fns e.reads e.writes e.operators
      fun α (f : σ → τ → Run σ τ α) _ => ∀ s t, (f s t).result ≠ .error (.invalidOperator number) :=
    { done := fun _ _ _ => by simp
      andThen := by
        intro α β f _ next _ hf hnext s t
        have hfirst := hf s t
        dsimp only
        generalize f s t = run at hfirst ⊢
        rcases run with ⟨fault | a, s', t'⟩
        · exact fun h => hfirst (congrArg Except.error (Except.error.inj h))
        · exact hnext a s' t'
      read := by
        intro name _ p s t
        simp only [eval]
        cases Scope.get? s name with
        | none => simp
        | some v => simp
      write := fun _ _ _ _ _ => by simp
      operator := fun op hop p x y _ _ => combine_ne_invalidOperator (he.operators op hop) p x y number
      refuse := by
        intro p name count fault hresolve
        refine ⟨hresolve, fun _ _ h => ?_⟩
        cases h
        exact resolve_ne_invalidOperator fns p name count number hresolve
      call := fun hresolve => ⟨_, hresolve, fun _ _ _ => by simp⟩ }
  exact h.eval s t

end

end Expr

end TierCalc
