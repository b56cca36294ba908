import TierCalc.Eval.Evaluate
import TierCalc.Proofs.Eval.Bindings
import TierCalc.Proofs.Routine.Backward
import TierCalc.Proofs.Routine.Body

/-!
# Both orders agree

Evaluation goes from left to right over a scope, code from right to left over slots. For an expression that has code
they end alike (`eval_agrees`): with the same value and the same assignments (`Gains`), or both without a value because
of a zero divisor. The operands of a binary node do not interfere, so what one of them assigns is not seen by the other
and the assignments of both may be joined in either order.
-/

namespace TierCalc.Routine

/-! ### What code changes -/

theorem backward_value {e : Expr} {n : String} (hn : n ∉ e.writes) (σ : Store) :
    (e.backward σ).2.value n = σ.value n := by
  induction e using Expr.nodeInduction generalizing σ with
  | int pos literal v => rfl
  | ident pos name => rfl
  | binary l pos op r ihl ihr =>
      rw [Expr.writes_binary, List.mem_append, not_or] at hn
      rw [Expr.backward]
      refine Outcome.andThen_store (P := fun τ => τ.value n = σ.value n) (ihr hn.2 σ) fun y σ' h => ?_
      refine Outcome.andThen_store (P := fun τ => τ.value n = σ.value n) ((ihl hn.1 σ').trans h) fun x σ'' h' => ?_
      cases Operator.ofNumber? op <;> exact h'
  | assign pos name eqPos v ih =>
      rw [Expr.writes_assign, List.mem_cons, not_or] at hn
      rw [Expr.backward]
      exact Outcome.andThen_store (P := fun τ => τ.value n = σ.value n) (ih hn.2 σ)
        fun x σ' h => (if_neg hn.1).trans h
  | call pos name lparen args rparen _ => rfl
  | cond pos lparen c yes no rparen ihc ihy ihn =>
      rw [Expr.writes_cond, List.mem_append, List.mem_append, not_or, not_or] at hn
      rw [Expr.backward]
      refine Outcome.andThen_store (P := fun τ => τ.value n = σ.value n) (ihc hn.1 σ) fun x σ' h => ?_
      split_ifs
      · exact (ihy hn.2.1 σ').trans h
      · exact (ihn hn.2.2 σ').trans h

theorem statusOf_ne_zero (isModulo : Bool) : statusOf isModulo ≠ 0 := by
  cases isModulo <;> decide

theorem backward_status (e : Expr) (σ : Store) (status : Int32) (h : (e.backward σ).1 = .error status) :
    status ≠ 0 := by
  induction e using Expr.nodeInduction generalizing σ status with
  | int pos literal v => cases h
  | ident pos name => cases h
  | binary l pos op r ihl ihr =>
      rw [Expr.backward] at h
      refine Outcome.andThen_status (ihr σ) (fun y σ' => ?_) status h
      refine Outcome.andThen_status (ihl σ') (fun x σ'' status' h' => ?_)
      revert h'
      cases Operator.ofNumber? op with
      | none => exact fun h' => by cases h'
      | some o =>
          intro h'
          simp only [applied] at h'
          split at h'
          · cases h'
          · rw [← Except.error.inj h']
            exact statusOf_ne_zero _
  | assign pos name eqPos v ih =>
      rw [Expr.backward] at h
      exact Outcome.andThen_status (ih σ) (fun x σ' status' h' => by cases h') status h
  | call pos name lparen args rparen _ => cases h
  | cond pos lparen c y n rparen ihc ihy ihn =>
      rw [Expr.backward] at h
      refine Outcome.andThen_status (ihc σ) (fun x σ' => ?_) status h
      split_ifs
      · exact ihy σ'
      · exact ihn σ'

/-! ### Assignments on both sides -/

/-- Whether an overlay and a store have both gained certain assignments. -/
structure Gains (u : String → Option Int64) (o o' : Overlay) (σ σ' : Store) : Prop where
  base : o'.base = o.base
  writes : ∀ n, o'.writes.get? n = (u n).or (o.writes.get? n)
  value : ∀ n, σ'.value n = (u n).getD (σ.value n)
  flag : ∀ n, σ'.flag n = if (u n).isSome then 1 else σ.flag n
  ordered : o.writes.Ordered → o'.writes.Ordered

theorem Gains.get? {u : String → Option Int64} {o o' : Overlay} {σ σ' : Store} (g : Gains u o o' σ σ') (n : String) :
    o'.get? n = (u n).or (o.get? n) := by
  rw [Overlay.get?, Overlay.get?, g.writes, g.base, Option.or_assoc]

theorem Gains.none (o : Overlay) (σ : Store) : Gains (fun _ => Option.none) o o σ σ :=
  ⟨rfl, fun _ => rfl, fun _ => rfl, fun _ => rfl, id⟩

/-- Assignments one after another. -/
theorem Gains.trans {u u' : String → Option Int64} {o o' o'' : Overlay} {σ σ' σ'' : Store} (g : Gains u o o' σ σ')
    (g' : Gains u' o' o'' σ' σ'') : Gains (fun n => (u' n).or (u n)) o o'' σ σ'' where
  base := g'.base.trans g.base
  writes n := by rw [g'.writes, g.writes, Option.or_assoc]
  value n := by rw [g'.value, g.value]; cases u' n <;> rfl
  flag n := by rw [g'.flag, g.flag]; cases u' n <;> cases u n <;> rfl
  ordered h := g'.ordered (g.ordered h)

/-- Assignments to different names, in one order on the one side and in the other order on the other side. -/
theorem Gains.cross {u u' : String → Option Int64} {o o' o'' : Overlay} {σ σ' σ'' : Store} (g : Gains u o o' σ' σ'')
    (g' : Gains u' o' o'' σ σ') (h : ∀ n, (u n).isSome → u' n = Option.none) :
    Gains (fun n => (u n).or (u' n)) o o'' σ σ'' where
  base := g'.base.trans g.base
  writes n := by
    rw [g'.writes, g.writes]
    cases hu : u n with
    | none => rfl
    | some v => rw [h n (by rw [hu]; rfl)]; rfl
  value n := by rw [g.value, g'.value]; cases u n <;> rfl
  flag n := by rw [g.flag, g'.flag]; cases u n <;> cases u' n <;> rfl
  ordered h := g'.ordered (g.ordered h)

theorem Gains.assign (o : Overlay) (σ : Store) (name : String) (v : Int64) :
    Gains (fun n => if n = name then some v else Option.none) o (o.set name v) σ (σ.assign name v) where
  base := rfl
  writes n := by
    rw [Overlay.set, Bindings.get?_set]
    split_ifs <;> rfl
  value n := by
    simp only [Store.assign]
    split_ifs <;> rfl
  flag n := by
    simp only [Store.assign]
    split_ifs <;> simp_all
  ordered h := h.set name v

/-- Whether those names of a list that are certainly defined have the same value on both sides. -/
def Reading (names defined : List String) (o : Overlay) (σ : Store) : Prop :=
  ∀ n ∈ names, n ∈ defined → o.get? n = some (σ.value n)

theorem Reading.gain {names defined defined' : List String} {u : String → Option Int64} {o o' : Overlay} {σ σ' : Store}
    (h : Reading names defined o σ) (g : Gains u o o' σ σ') (hd : ∀ n ∈ defined', n ∈ defined ∨ (u n).isSome) :
    Reading names defined' o' σ' := by
  intro n hn hdef
  rw [g.get?, g.value]
  cases hu : u n with
  | some v => rfl
  | none =>
      have hdef' := (hd n hdef).resolve_right (by simp [hu])
      exact h n hn hdef'

/-! ### Agreement -/

/-- How evaluation and code end alike. `ws` are the names that may be assigned, `defined` and `defined'` those that
certainly have a value before and after. -/
inductive Agree {τ : Type} (ws defined defined' : List String) (o : Overlay) (w : τ) (σ : Store) :
    Run Overlay τ Int64 → Outcome → Prop
  | value {u : String → Option Int64} {v : Int64} {o' : Overlay} {σ' : Store} (gains : Gains u o o' σ σ')
      (written : ∀ n, (u n).isSome → n ∈ ws) (defines : ∀ n ∈ defined', n ∈ defined ∨ (u n).isSome) :
      Agree ws defined defined' o w σ ⟨.ok v, o', w⟩ (.ok v, σ')
  | zeroDivisor {op : Operator} {location : Location} {o' : Overlay} {status : Int32} {σ' : Store}
      (division : op.isDivision = true) :
      Agree ws defined defined' o w σ ⟨.error (.error (.divisionByZero op.symbol location)), o', w⟩
        (.error status, σ')

/-- Agreement of a first part with gains, and of what follows it. -/
theorem Agree.after {τ : Type} {ws ws' defined defined' defined₁ defined₂ : List String} {u : String → Option Int64}
    {o o' : Overlay} {w : τ} {σ σ' : Store} {a : Run Overlay τ Int64} {b : Outcome} (gains : Gains u o o' σ σ')
    (written : ∀ n, (u n).isSome → n ∈ ws) (defines : ∀ n ∈ defined₁, n ∈ defined ∨ (u n).isSome)
    (h : Agree ws' defined₁ defined₂ o' w σ' a b) (hws : ∀ n ∈ ws', n ∈ ws) (hdef : ∀ n ∈ defined', n ∈ defined₂) :
    Agree ws defined defined' o w σ a b := by
  cases h with
  | @value u' v o'' σ'' gains' written' defines' =>
      refine .value (gains.trans gains') ?_ ?_
      · intro n hn
        rw [Option.isSome_or, Bool.or_eq_true] at hn
        exact hn.elim (fun hn => hws n (written' n hn)) (written n)
      · intro n hn
        rw [Option.isSome_or, Bool.or_eq_true]
        rcases defines' n (hdef n hn) with hn | hn
        · exact (defines n hn).imp_right .inr
        · exact .inr (.inl hn)
  | zeroDivisor division => exact .zeroDivisor division

theorem combine_applied {op : UInt8} {o : Operator} (ho : Operator.ofNumber? op = some o) (pos : Position)
    (x y : Int64) :
    (∃ v, Expr.combine op pos x y = .ok v ∧ applied o x y = .ok v) ∨
    (o.isDivision = true ∧ Expr.combine op pos x y = .error (.error (.divisionByZero o.symbol (.ofPosition pos))) ∧
      ∃ status, applied o x y = .error status) := by
  simp only [Expr.combine, ho, applied]
  cases h : o.apply x y with
  | some v => exact .inl ⟨v, rfl, rfl⟩
  | none =>
      refine .inr ⟨?_, rfl, _, rfl⟩
      cases o with
      | divide | modulo => rfl
      | _ => cases h

/-- Agreement of two operands that assign different names, computed in opposite orders, and of their operator. -/
theorem agree_combine {τ : Type} {op : UInt8} {opr : Operator} (ho : Operator.ofNumber? op = some opr) (pos : Position)
    {ws ws' defined defined₁ defined' : List String} {u u' : String → Option Int64} {o ol or : Overlay} {w : τ}
    {σ σr σl : Store} {x y : Int64} (gains : Gains u o ol σr σl) (written : ∀ n, (u n).isSome → n ∈ ws)
    (defines : ∀ n ∈ defined', n ∈ defined₁ ∨ (u n).isSome) (gains' : Gains u' ol or σ σr)
    (written' : ∀ n, (u' n).isSome → n ∈ ws') (defines' : ∀ n ∈ defined₁, n ∈ defined ∨ (u' n).isSome)
    (hww : ∀ n ∈ ws, n ∉ ws') :
    Agree (ws ++ ws') defined defined' o w σ ⟨Expr.combine op pos x y, or, w⟩ (applied opr x y, σl) := by
  have hdisjoint (n : String) (hn : (u n).isSome) : u' n = none := by
    rw [← Option.not_isSome_iff_eq_none]
    exact fun hn' => hww n (written n hn) (written' n hn')
  obtain ⟨v, hcombine, happlied⟩ | ⟨hdiv, hcombine, status, happlied⟩ := combine_applied ho pos x y
  · rw [hcombine, happlied]
    refine .value (gains.cross gains' hdisjoint) ?_ ?_
    · intro n hn
      rw [Option.isSome_or, Bool.or_eq_true] at hn
      rw [List.mem_append]
      exact hn.imp (written n) (written' n)
    · intro n hn
      rw [Option.isSome_or, Bool.or_eq_true]
      rcases defines n hn with hn | hn
      · exact (defines' n hn).imp_right .inr
      · exact .inr (.inl hn)
  · rw [hcombine, happlied]
    exact .zeroDivisor hdiv

theorem not_interferes {l r : Expr} (h : l.interferes r = false) :
    (∀ n ∈ l.writes, n ∉ r.reads) ∧ (∀ n ∈ r.writes, n ∉ l.reads) ∧ ∀ n ∈ l.writes, n ∉ r.writes := by
  simpa [Expr.interferes, Names.intersect, and_assoc] using h

section
variable {τ : Type} {fns : Builtins τ} {w : τ}

/-- Agreement of a binary node. Evaluation goes from the left operand to the right one and code from the right one to
the left one, so the left one may find what the right one has left in the store, and the right one what the left one
has left in the overlay. -/
theorem agree_binary {l r : Expr} {pos : Position} {op : UInt8} {opr : Operator}
    (ho : Operator.ofNumber? op = some opr) {defined defined₁ defined' : List String} {o : Overlay} {σ : Store}
    (hww : ∀ n ∈ l.writes, n ∉ r.writes)
    (hl : ∀ σ' : Store, (∀ n, n ∉ r.writes → σ'.value n = σ.value n) →
      Agree l.writes defined₁ defined' o w σ' (l.eval fns o w) (l.backward σ'))
    (hr : ∀ (u : String → Option Int64) (o' : Overlay), (∀ n, o'.get? n = (u n).or (o.get? n)) →
      (∀ n, (u n).isSome → n ∈ l.writes) →
      Agree r.writes defined defined₁ o' w σ (r.eval fns o' w) (r.backward σ)) :
    Agree (l.writes ++ r.writes) defined defined' o w σ ((Expr.binary l pos op r).eval fns o w)
      ((Expr.binary l pos op r).backward σ) := by
  rw [Expr.eval, Expr.backward]
  rcases hbr : r.backward σ with ⟨status | y, σr⟩
  · have hagl := hl σ fun n _ => rfl
    rw [Outcome.andThen_error]
    revert hagl
    generalize l.eval fns o w = a
    generalize l.backward σ = b
    rintro (@⟨u, x, ol, σl, gains, written, -⟩ | ⟨division⟩)
    · have hagr := hr u ol gains.get? written
      rw [hbr] at hagr
      dsimp only
      revert hagr
      generalize r.eval fns ol w = a'
      rintro (_ | ⟨division⟩)
      exact .zeroDivisor division
    · exact .zeroDivisor division
  · have hagl := hl σr fun n hn => by
      have hv := backward_value hn σ
      rwa [hbr] at hv
    rw [Outcome.andThen_ok]
    revert hagl
    generalize l.eval fns o w = a
    generalize l.backward σr = b
    rintro (@⟨u, x, ol, σl, gains, written, defines⟩ | ⟨division⟩)
    · have hagr := hr u ol gains.get? written
      rw [hbr] at hagr
      simp only [ho, Outcome.andThen_ok]
      revert hagr
      generalize r.eval fns ol w = a'
      rintro (@⟨u', y, or, σr, gains', written', defines'⟩ | _)
      exact agree_combine ho pos gains written defines gains' written' defines' hww
    · exact .zeroDivisor division

/-- Code ends as evaluation does, if the variables that it may read have the same values. -/
theorem eval_agrees {e : Expr} {d : Nat} {p p' : Progress} {ps : List Piece} (h : body d e p = .ok (ps, p'))
    {o : Overlay} {σ : Store} (hread : Reading e.reads p.defined o σ) :
    Agree e.writes p.defined p'.defined o w σ (e.eval fns o w) (e.backward σ) := by
  induction e using Expr.nodeInduction generalizing d p p' ps o σ with
  | int pos literal v =>
      obtain ⟨-, rfl⟩ := body_int h
      exact .value (.none o σ) (by simp) fun n hn => .inl hn
  | ident pos name =>
      obtain ⟨hd, -, rfl⟩ := body_ident h
      have hget : Scope.get? o name = some (σ.value name) := hread name (by simp) hd
      rw [Expr.eval, hget]
      exact .value (.none o σ) (by simp) fun n hn => .inl hn
  | binary l pos op r ihl ihr =>
      obtain ⟨opr, right, left, q, ho, hi, hr, -, hl, -⟩ := body_binary h
      obtain ⟨hlr, hrl, hww⟩ := not_interferes hi
      rw [Expr.writes_binary]
      -- What one operand reads is not assigned by the other, so each may start before or after the other.
      refine agree_binary ho hww (fun σ' hσ => ihl hl fun n hn hd => ?_) (fun u o' hget hu => ihr hr fun n hn hd => ?_)
      · have hd' := ((body_grows hr).defined n hd).resolve_right fun hw => hrl n hw hn
        rw [hσ n fun hw => hrl n hw hn]
        exact hread n (by simp [hn]) hd'
      · have hnone : u n = none := by
          rw [← Option.not_isSome_iff_eq_none]
          exact fun hs => hlr n (hu n hs) hn
        rw [hget, hnone, Option.none_or]
        exact hread n (by simp [hn]) hd
  | assign pos name eqPos v ih =>
      obtain ⟨value, q, hv, -, -, rfl⟩ := body_assign h
      have hagree := ih hv hread
      rw [Expr.eval, Expr.backward]
      revert hagree
      generalize v.eval fns o w = a
      generalize v.backward σ = b
      rintro (@⟨u, x, o', σ', gains, written, defines⟩ | ⟨division⟩)
      · have hassign : Agree [name] q.defined (Layout.add q.defined name) o' w σ' ⟨.ok x, Scope.set o' name x, w⟩
            (.ok x, σ'.assign name x) := by
          refine .value (.assign o' σ' name x) ?_ ?_
          · intro n hn
            split_ifs at hn with e
            · simp [e]
            · cases hn
          · intro n hn
            rcases mem_add.mp hn with hn | rfl
            · exact .inl hn
            · simp
        exact .after gains (fun n hn => by simp [written n hn]) defines hassign (by simp) fun n hn => hn
      · exact .zeroDivisor division
  | call pos name lparen args rparen _ => exact absurd h body_call
  | cond pos lparen c y n rparen ihc ihy ihn =>
      obtain ⟨test, yes, no, q₁, q₂, q₃, hc, hy, hn, -, rfl⟩ := body_cond h
      have hagree := ihc hc fun m hm => hread m (by simp [hm])
      rw [Expr.eval, Expr.backward]
      revert hagree
      generalize c.eval fns o w = a
      generalize c.backward σ = b
      rintro (⟨gains, written, defines⟩ | ⟨division⟩)
      · rw [Outcome.andThen_ok]
        simp only
        have hafter := hread.gain gains defines
        split_ifs
        · exact .after gains (fun m hm => by simp [written m hm]) defines
            (ihy hy fun m hm => hafter m (by simp [hm])) (by simp +contextual) (by simp +contextual)
        · exact .after gains (fun m hm => by simp [written m hm]) defines
            (ihn hn fun m hm => hafter m (by simp [hm])) (by simp +contextual) (by simp +contextual)
      · exact .zeroDivisor division

end

end TierCalc.Routine
