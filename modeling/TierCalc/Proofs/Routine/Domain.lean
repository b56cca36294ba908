import Mathlib.Data.Finset.Card
import TierCalc.Proofs.Eval.Effects
import TierCalc.Proofs.Routine.Order

/-!
# Which expressions code is put together for

The conditions under which `body` gives code, said without it.

* `Expr.Bound`: every variable is known where evaluation from left to right reads it. `Expr.assigns` are the names that
  evaluation certainly assigns; of a conditional, those that both branches do.
* `Expr.Independent`: no binary node has operands that interfere.
* `Expr.operandDepth`: how many operands wait on the stack at most.

Code computes the right operand first, so it looks for variables in another order than evaluation. For operands that do
not interfere that makes no difference (`Expr.bound_union`). `body_inside` and `body_of_inside` say that the conditions
are necessary and sufficient, and `body_flow` says what is known afterwards.
-/

namespace TierCalc

namespace Expr

/-! ### Conditions on expressions -/

/-- The largest number of operands on the stack while an expression is computed, the right operand of a node before the
left one. -/
def operandDepth : Expr → Nat
  | int _ _ _ | ident _ _ | call _ _ _ _ _ => 0
  | binary l _ _ r => max r.operandDepth (1 + l.operandDepth)
  | assign _ _ _ v => v.operandDepth
  | cond _ _ c y n _ => max c.operandDepth (max y.operandDepth n.operandDepth)

/-- The names that evaluation certainly assigns. Calls are not looked into. -/
def assigns : Expr → Finset String
  | int _ _ _ | ident _ _ | call _ _ _ _ _ => ∅
  | binary l _ _ r => l.assigns ∪ r.assigns
  | assign _ name _ v => insert name v.assigns
  | cond _ _ c y n _ => c.assigns ∪ (y.assigns ∩ n.assigns)

/-- Whether every variable that is read is known, or is certainly assigned before it in evaluation from left to right.
Calls are not looked into. -/
def Bound : Expr → Finset String → Prop
  | int _ _ _, _ | call _ _ _ _ _, _ => True
  | ident _ name, known => name ∈ known
  | binary l _ _ r, known => l.Bound known ∧ r.Bound (known ∪ l.assigns)
  | assign _ _ _ v, known => v.Bound known
  | cond _ _ c y n _, known => c.Bound known ∧ y.Bound (known ∪ c.assigns) ∧ n.Bound (known ∪ c.assigns)

/-- Whether at every binary node no operand assigns a name that the other reads or assigns. Calls are not looked
into. -/
def Independent : Expr → Prop
  | int _ _ _ | ident _ _ | call _ _ _ _ _ => True
  | binary l _ _ r =>
      ((∀ n ∈ l.writes, n ∉ r.reads ∧ n ∉ r.writes) ∧ ∀ n ∈ r.writes, n ∉ l.reads ∧ n ∉ l.writes) ∧
        l.Independent ∧ r.Independent
  | assign _ _ _ v => v.Independent
  | cond _ _ c y n _ => c.Independent ∧ y.Independent ∧ n.Independent

section
variable {e l r : Expr} {known more : Finset String}

theorem interferes_eq_false : l.interferes r = false ↔
    (∀ n ∈ l.writes, n ∉ r.reads ∧ n ∉ r.writes) ∧ ∀ n ∈ r.writes, n ∉ l.reads ∧ n ∉ l.writes := by
  constructor
  · intro h
    obtain ⟨hlr, hrl, hww⟩ := Routine.not_interferes h
    refine ⟨fun n hn => ⟨hlr n hn, hww n hn⟩, fun n hn => ⟨hrl n hn, fun hl => hww n hl hn⟩⟩
  · rintro ⟨hl, hr⟩
    simp only [interferes, Names.intersect, Bool.or_eq_false_iff, List.any_eq_false, List.contains_iff_mem]
    exact ⟨⟨fun n hn => (hl n hn).1, fun n hn => (hr n hn).1⟩, fun n hn => (hl n hn).2⟩

theorem assigns_subset (e : Expr) : ∀ n ∈ e.assigns, n ∈ e.writes := by
  induction e using nodeInduction with
  | int => simp [assigns]
  | ident => simp [assigns]
  | binary l p op r ihl ihr =>
      intro n hn
      rw [assigns, Finset.mem_union] at hn
      rw [writes_binary, List.mem_append]
      exact hn.imp (ihl n) (ihr n)
  | assign p name q v ih =>
      intro n hn
      rw [assigns, Finset.mem_insert] at hn
      rw [writes_assign, List.mem_cons]
      exact hn.imp_right (ih n)
  | call => simp [assigns]
  | cond p q c y n r ihc ihy ihn =>
      intro m hm
      rw [assigns, Finset.mem_union, Finset.mem_inter] at hm
      rw [writes_cond, List.mem_append, List.mem_append]
      rcases hm with hm | ⟨hm, -⟩
      · exact .inl (ihc m hm)
      · exact .inr (.inl (ihy m hm))

theorem bound_union (h : ∀ n ∈ more, n ∉ e.reads) : e.Bound (known ∪ more) ↔ e.Bound known := by
  induction e using nodeInduction generalizing known with
  | int => exact Iff.rfl
  | ident p name =>
      have hne : name ∉ more := fun hn => h name hn (by simp)
      simp [Bound, hne]
  | binary l p op r ihl ihr =>
      have hl : ∀ n ∈ more, n ∉ l.reads := fun n hn hm => h n hn (by simp [hm])
      have hr : ∀ n ∈ more, n ∉ r.reads := fun n hn hm => h n hn (by simp [hm])
      rw [Bound, Bound, ihl hl, Finset.union_right_comm, ihr hr]
  | assign p name q v ih => exact ih h
  | call => exact Iff.rfl
  | cond p q c y n r ihc ihy ihn =>
      have hc : ∀ m ∈ more, m ∉ c.reads := fun m hm hn => h m hm (by simp [hn])
      have hy : ∀ m ∈ more, m ∉ y.reads := fun m hm hn => h m hm (by simp [hn])
      have hn : ∀ m ∈ more, m ∉ n.reads := fun m hm hn => h m hm (by simp [hn])
      rw [Bound, Bound, ihc hc, Finset.union_right_comm, ihy hy, ihn hn]

/-- Of operands that do not interfere, either may be looked at first. -/
theorem bound_swap (h : l.interferes r = false) :
    (l.Bound known ∧ r.Bound (known ∪ l.assigns)) ↔ (r.Bound known ∧ l.Bound (known ∪ r.assigns)) := by
  obtain ⟨hl, hr⟩ := interferes_eq_false.mp h
  rw [bound_union fun n hn => (hl n (assigns_subset l n hn)).1,
    bound_union fun n hn => (hr n (assigns_subset r n hn)).1]
  exact and_comm

end

end Expr

namespace Routine

/-! ### What is known afterwards -/

/-- What generating the code of an expression makes of what is known. -/
structure Flow (d : Nat) (e : Expr) (p p' : Progress) : Prop where
  defined : p'.defined.toFinset = p.defined.toFinset ∪ e.assigns
  names : p'.names.toFinset = p.names.toFinset ∪ e.writes.toFinset
  deepest : d ≤ p.deepest → p'.deepest = max p.deepest (d + e.operandDepth)

theorem toFinset_add (names : List String) (name : String) :
    (Layout.add names name).toFinset = insert name names.toFinset := by
  ext n
  rw [List.mem_toFinset, mem_add, Finset.mem_insert, List.mem_toFinset, or_comm]

theorem toFinset_filter_contains (yes no : List String) :
    (no.filter yes.contains).toFinset = yes.toFinset ∩ no.toFinset := by
  ext n
  simp [and_comm]

section
variable {e : Expr} {d : Nat} {p p' : Progress} {ps : List Piece}

theorem body_flow (h : body d e p = .ok (ps, p')) : Flow d e p p' := by
  induction e using Expr.nodeInduction generalizing d p p' ps with
  | int pos literal v =>
      obtain ⟨-, rfl⟩ := body_int h
      refine ⟨by simp [Expr.assigns], by simp, fun hd => ?_⟩
      rw [Expr.operandDepth]
      omega
  | ident pos name =>
      obtain ⟨-, -, rfl⟩ := body_ident h
      refine ⟨by simp [Expr.assigns], by simp, fun hd => ?_⟩
      rw [Expr.operandDepth]
      omega
  | binary l pos op r ihl ihr =>
      obtain ⟨o, right, left, q, -, -, hr, -, hl, -⟩ := body_binary h
      obtain ⟨hrd, hrn, hrdeep⟩ := ihr hr
      obtain ⟨hld, hln, hldeep⟩ := ihl hl
      refine ⟨?_, ?_, fun hd => ?_⟩
      · rw [hld, hrd, Expr.assigns, Finset.union_assoc, Finset.union_comm r.assigns]
      · rw [hln, hrn, Expr.writes_binary, List.toFinset_append, Finset.union_assoc,
          Finset.union_comm r.writes.toFinset]
      · have hr' := hrdeep hd
        have hl' := hldeep (Nat.le_max_right _ _)
        have hone : max (d + 1) (d + 1 + l.operandDepth) = d + (1 + l.operandDepth) := by
          rw [Nat.max_eq_right (Nat.le_add_right _ _), Nat.add_assoc]
        rw [hl', hr', Expr.operandDepth, ← Nat.add_max_add_left, Nat.max_assoc, hone, Nat.max_assoc]
  | assign pos name eqPos v ih =>
      obtain ⟨value, q, hv, -, -, rfl⟩ := body_assign h
      obtain ⟨hd, hn, hdeep⟩ := ih hv
      refine ⟨?_, ?_, hdeep⟩
      · rw [toFinset_add, hd, Expr.assigns, Finset.union_insert]
      · rw [toFinset_add, hn, Expr.writes_assign, List.toFinset_cons, Finset.union_insert]
  | call pos name lparen args rparen _ => exact absurd h body_call
  | cond pos lparen c y n rparen ihc ihy ihn =>
      obtain ⟨test, yes, no, q₁, q₂, q₃, hc, hy, hn, -, rfl⟩ := body_cond h
      obtain ⟨hcd, hcn, hcdeep⟩ := ihc hc
      obtain ⟨hyd, hyn, hydeep⟩ := ihy hy
      obtain ⟨hnd, hnn, hndeep⟩ := ihn hn
      refine ⟨?_, ?_, fun hd => ?_⟩
      · rw [toFinset_filter_contains, hyd, hnd, hcd, ← Finset.union_inter_distrib_left, Expr.assigns,
          Finset.union_assoc]
      · rw [hnn, hyn, hcn, Expr.writes_cond, List.toFinset_append, List.toFinset_append, Finset.union_assoc,
          Finset.union_assoc]
      · have hc' := hcdeep hd
        have hy' := hydeep (Nat.le_trans hd (body_grows hc).deepest)
        have hn' := hndeep (Nat.le_trans hd (Nat.le_trans (body_grows hc).deepest (body_grows hy).deepest))
        rw [hn', hy', hc', Expr.operandDepth, ← Nat.add_max_add_left, ← Nat.add_max_add_left, Nat.max_assoc,
          Nat.max_assoc]

/-! ### Necessary and sufficient conditions -/

/-- The conditions for code with `d` operands on the stack, where some names have slots and values already. -/
structure Inside (d : Nat) (e : Expr) (p : Progress) : Prop where
  callFree : e.callFree = true
  independent : e.Independent
  bound : e.Bound p.defined.toFinset
  depth : d + e.operandDepth ≤ maxDepth

theorem body_inside (h : body d e p = .ok (ps, p')) (hd : d ≤ maxDepth) : Inside d e p := by
  induction e using Expr.nodeInduction generalizing d p p' ps with
  | int pos literal v => exact ⟨rfl, trivial, trivial, hd⟩
  | ident pos name =>
      obtain ⟨hdefined, -, -⟩ := body_ident h
      exact ⟨rfl, trivial, List.mem_toFinset.mpr hdefined, hd⟩
  | binary l pos op r ihl ihr =>
      obtain ⟨o, right, left, q, -, hi, hr, hd', hl, -⟩ := body_binary h
      have gr := ihr hr hd
      have gl := ihl hl hd'
      have hbound := gl.bound
      rw [(body_flow hr).defined] at hbound
      refine ⟨?_, ⟨Expr.interferes_eq_false.mp hi, gl.independent, gr.independent⟩, ?_, ?_⟩
      · rw [Expr.callFree, gl.callFree, gr.callFree]
        rfl
      · exact (Expr.bound_swap hi).mpr ⟨gr.bound, hbound⟩
      · have h1 := gl.depth
        have h2 := gr.depth
        rw [Expr.operandDepth]
        omega
  | assign pos name eqPos v ih =>
      obtain ⟨value, q, hv, -, -, -⟩ := body_assign h
      obtain ⟨hcalls, hindependent, hbound, hdepth⟩ := ih hv hd
      exact ⟨hcalls, hindependent, hbound, hdepth⟩
  | call pos name lparen args rparen _ => exact absurd h body_call
  | cond pos lparen c y n rparen ihc ihy ihn =>
      obtain ⟨test, yes, no, q₁, q₂, q₃, hc, hy, hn, -, -⟩ := body_cond h
      have gc := ihc hc hd
      have gy := ihy hy hd
      have gn := ihn hn hd
      have hyes := gy.bound
      have hno := gn.bound
      rw [(body_flow hc).defined] at hyes hno
      refine ⟨?_, ⟨gc.independent, gy.independent, gn.independent⟩, ⟨gc.bound, hyes, hno⟩, ?_⟩
      · rw [Expr.callFree, gc.callFree, gy.callFree, gn.callFree]
        rfl
      · have h1 := gc.depth
        have h2 := gy.depth
        have h3 := gn.depth
        rw [Expr.operandDepth]
        omega

theorem idxOf_add_lt {names : List String} {name : String} (hnodup : names.Nodup) {all : Finset String}
    (hsub : insert name names.toFinset ⊆ all) (hall : all.card ≤ maxSlots) :
    (Layout.add names name).idxOf name < maxSlots := by
  have hmem : name ∈ Layout.add names name := mem_add.mpr (.inr rfl)
  have hlt := List.idxOf_lt_length_of_mem hmem
  have hlength : (Layout.add names name).length ≤ all.card := by
    rw [← List.toFinset_card_of_nodup (nodup_add hnodup name), toFinset_add]
    exact Finset.card_le_card hsub
  omega

/-- An expression that satisfies the conditions has code, if there are slots for all its names. -/
theorem body_of_inside (he : e.Operable) (h : Inside d e p) (hnodup : p.names.Nodup) {all : Finset String}
    (hnames : p.names.toFinset ∪ e.writes.toFinset ⊆ all) (hall : all.card ≤ maxSlots) :
    ∃ ps p', body d e p = .ok (ps, p') := by
  induction he generalizing d p with
  | int pos literal v => exact ⟨_, _, rfl⟩
  | ident pos name =>
      have hdefined : name ∈ p.defined := List.mem_toFinset.mp h.bound
      exact ⟨_, _, by rw [body, if_pos (by simpa using hdefined)]⟩
  | @binary l r pos op ho _ _ ihl ihr =>
      obtain ⟨hcalls, ⟨hi, hil, hir⟩, hbound, hdepth⟩ := h
      have hi := Expr.interferes_eq_false.mpr hi
      obtain ⟨hbr, hbl⟩ := (Expr.bound_swap hi).mp hbound
      rw [Expr.callFree, Bool.and_eq_true] at hcalls
      rw [Expr.operandDepth] at hdepth
      rw [Expr.writes_binary, List.toFinset_append, Finset.union_subset_iff, Finset.union_subset_iff] at hnames
      obtain ⟨hp, hl, hr⟩ := hnames
      obtain ⟨right, q, hright⟩ := ihr (d := d) (p := p) ⟨hcalls.2, hir, hbr, by omega⟩ hnodup
        (Finset.union_subset hp hr)
      have hflow := body_flow hright
      have hq : q.names.toFinset ⊆ all := by
        rw [hflow.names]
        exact Finset.union_subset hp hr
      rw [← hflow.defined] at hbl
      obtain ⟨left, p', hleft⟩ := ihl (d := d + 1) (p := { q with deepest := max q.deepest (d + 1) })
        ⟨hcalls.1, hil, hbl, by omega⟩ ((body_grows hright).nodup hnodup) (Finset.union_subset hq hl)
      obtain ⟨o, ho⟩ := Option.isSome_iff_exists.mp ho
      refine ⟨right ++ pieces [.push .rax] ++ left ++ pieces [.pop .rcx] ++ operatorPieces d o, p', ?_⟩
      have hroom : ¬ d + 1 > maxDepth := by omega
      simp only [body, ho, hi, Bool.false_eq_true, if_false, bind_of_ok hright, hroom, bind_of_ok hleft, pure_ok]
  | @assign pos name eqPos v _ ih =>
      obtain ⟨hcalls, hindependent, hbound, hdepth⟩ := h
      rw [Expr.writes_assign, List.toFinset_cons, Finset.union_insert, Finset.insert_subset_iff] at hnames
      obtain ⟨hname, hv⟩ := hnames
      obtain ⟨value, q, hvalue⟩ := ih (d := d) (p := p) ⟨hcalls, hindependent, hbound, hdepth⟩ hnodup hv
      have hq : insert name q.names.toFinset ⊆ all := by
        rw [(body_flow hvalue).names]
        exact Finset.insert_subset hname hv
      have hslot := idxOf_add_lt ((body_grows hvalue).nodup hnodup) hq hall
      refine ⟨value ++ pieces [.store .rbp (frameOffset ((Layout.add q.names name).idxOf name)) .rax,
        .storeImm .rdi (flagOffset ((Layout.add q.names name).idxOf name)) 1],
        { q with names := Layout.add q.names name, defined := Layout.add q.defined name }, ?_⟩
      simp only [body, bind_of_ok hvalue, ge_iff_le, Nat.not_le.mpr hslot, if_false, pure_ok]
  | call pos name lparen rparen _ _ => exact absurd h.callFree (by simp [Expr.callFree])
  | @cond pos lparen c y n rparen _ _ _ ihc ihy ihn =>
      obtain ⟨hcalls, ⟨hic, hiy, hin⟩, ⟨hbc, hby, hbn⟩, hdepth⟩ := h
      rw [Expr.callFree, Bool.and_eq_true, Bool.and_eq_true] at hcalls
      obtain ⟨⟨hcc, hcy⟩, hcn⟩ := hcalls
      rw [Expr.operandDepth] at hdepth
      rw [Expr.writes_cond, List.toFinset_append, List.toFinset_append, Finset.union_subset_iff,
        Finset.union_subset_iff, Finset.union_subset_iff] at hnames
      obtain ⟨hp, hc, hy, hn⟩ := hnames
      obtain ⟨test, q₁, htest⟩ := ihc (d := d) (p := p) ⟨hcc, hic, hbc, by omega⟩ hnodup (Finset.union_subset hp hc)
      have hflow₁ := body_flow htest
      have hnodup₁ := (body_grows htest).nodup hnodup
      have hq₁ : q₁.names.toFinset ⊆ all := by
        rw [hflow₁.names]
        exact Finset.union_subset hp hc
      rw [← hflow₁.defined] at hby hbn
      obtain ⟨yes, q₂, hyes⟩ := ihy (d := d) (p := q₁) ⟨hcy, hiy, hby, by omega⟩ hnodup₁ (Finset.union_subset hq₁ hy)
      have hq₂ : q₂.names.toFinset ⊆ all := by
        rw [(body_flow hyes).names]
        exact Finset.union_subset hq₁ hy
      -- What the first branch assigns does not count for the second one, but the slots stay.
      obtain ⟨no, q₃, hno⟩ := ihn (d := d) (p := { q₂ with defined := q₁.defined }) ⟨hcn, hin, hbn, by omega⟩
        ((body_grows hyes).nodup hnodup₁) (Finset.union_subset hq₂ hn)
      refine ⟨test ++ choicePieces yes no, { q₃ with defined := q₃.defined.filter q₂.defined.contains }, ?_⟩
      simp only [body, bind_of_ok htest, bind_of_ok hyes, bind_of_ok hno, pure_ok]

/-! ### Errors -/

/-- Whether an error tells of the expression: it has a call, operands that interfere, a variable without a value, or
exceeds the frame. -/
def GenerateError.Documented : GenerateError → Prop
  | .containsCall | .interference _ | .unbound _ | .tooManySlots _ | .tooManyVariables | .tooDeep => True
  | .invalidOperator _ | .unsupportedOperator _ | .operandUnderflow | .operandsLeft _ | .noPlaceholder _
  | .unpatchedBranch | .assembler _ | .refused _ => False

/-- Without invalid operators, `body` fails for documented reasons only. -/
theorem body_error (he : e.Operable) {err : GenerateError} (h : body d e p = .error err) : err.Documented := by
  induction he generalizing d p err with
  | int pos literal v => cases h
  | ident pos name =>
      rw [body] at h
      split_ifs at h
      obtain rfl := Except.error.inj h
      trivial
  | @binary l r pos op ho _ _ ihl ihr =>
      obtain ⟨o, ho⟩ := Option.isSome_iff_exists.mp ho
      simp only [body, ho] at h
      split at h
      · obtain rfl := Except.error.inj h
        trivial
      · rcases error_of_bind h with h | ⟨⟨right, q⟩, -, h⟩
        · exact ihr h
        · split at h
          · obtain rfl := Except.error.inj h
            trivial
          · rcases error_of_bind h with h | ⟨⟨left, p'⟩, -, h⟩
            · exact ihl h
            · cases h
  | @assign pos name eqPos v _ ih =>
      rw [body] at h
      rcases error_of_bind h with h | ⟨⟨value, q⟩, -, h⟩
      · exact ih h
      · dsimp only at h
        split_ifs at h
        · obtain rfl := Except.error.inj h
          trivial
        · cases h
  | call pos name lparen rparen _ _ =>
      obtain rfl := Except.error.inj h
      trivial
  | @cond pos lparen c y n rparen _ _ _ ihc ihy ihn =>
      rw [body] at h
      rcases error_of_bind h with h | ⟨⟨test, q₁⟩, -, h⟩
      · exact ihc h
      · rcases error_of_bind h with h | ⟨⟨yes, q₂⟩, -, h⟩
        · exact ihy h
        · rcases error_of_bind h with h | ⟨⟨no, q₃⟩, -, h⟩
          · exact ihn h
          · cases h

end

end Routine

end TierCalc
