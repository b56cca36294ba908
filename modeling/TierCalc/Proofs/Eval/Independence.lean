import Mathlib.Tactic.Common
import TierCalc.Proofs.Eval.Bindings
import TierCalc.Proofs.Eval.Effects
import TierCalc.Proofs.Eval.Functions
import TierCalc.Proofs.Routine.Order

/-!
# Independent operands

What an evaluation does is settled by the values of the names that the expression reads. In all scopes with these values
it has one value, or fails in each of them, and it makes the same assignments in the same order, to names that the
expression assigns (`eval_confined`). Only the hint of an error looks at other names.

Of two operands that do not interfere, the assignments of the one are therefore nothing to the other, and lists of
assignments to different names may be swapped. Both orders of evaluation have the same values and leave the same scope,
or both fail (`operands_commute`); this is why code may compute the right operand first.
-/

namespace TierCalc

/-! ### Laws of scopes -/

/-- A scope in which an assignment is seen at its own name only, and in which assignments to two names may be made in
either order. -/
class LawfulScope (σ : Type) [Scope σ] : Prop where
  get?_set : ∀ (s : σ) (name : String) (v : Int64) (n : String),
    Scope.get? (Scope.set s name v) n = if n = name then some v else Scope.get? s n
  set_comm : ∀ (s : σ) {m n : String}, m ≠ n → ∀ v w : Int64,
    Scope.set (Scope.set s m v) n w = Scope.set (Scope.set s n w) m v

/-- Of two names the smaller one is put in front of the other, whichever comes first. -/
theorem Bindings.put_comm_of_lt {m n : String} (h : m < n) (v w : Int64) (l : List (String × Int64)) :
    put n w (put m v l) = put m v (put n w l) := by
  induction l with
  | nil => grind [put]
  | cons p rest ih => grind [put]

theorem Bindings.set_comm (b : Bindings) {m n : String} (h : m ≠ n) (v w : Int64) :
    (b.set m v).set n w = (b.set n w).set m v := by
  rcases lt_or_gt_of_ne h with h | h
  · exact congrArg Bindings.mk (put_comm_of_lt h v w b.entries)
  · exact congrArg Bindings.mk (put_comm_of_lt h w v b.entries).symm

instance : LawfulScope Bindings where
  get?_set := Bindings.get?_set
  set_comm := Bindings.set_comm

instance : LawfulScope Overlay where
  get?_set o name v n := by
    change ((o.writes.set name v).get? n).or (o.base.get? n) = _
    rw [Bindings.get?_set]
    by_cases hn : n = name
    · rw [if_pos hn, if_pos hn, Option.some_or]
    · rw [if_neg hn, if_neg hn]
      rfl
  set_comm o _ _ h v w := congrArg (Overlay.mk o.base) (o.writes.set_comm h v w)

/-! ### Lists of assignments -/

namespace Scope

section
variable {σ : Type} [Scope σ]

/-- The scope after assignments one after another. -/
def setAll (s : σ) (log : List (String × Int64)) : σ := log.foldl (fun s p => Scope.set s p.1 p.2) s

theorem setAll_append (s : σ) (log log' : List (String × Int64)) :
    setAll s (log ++ log') = setAll (setAll s log) log' := List.foldl_append

variable [LawfulScope σ]

theorem get?_setAll_congr {s r : σ} {n : String} (h : Scope.get? r n = Scope.get? s n) (log : List (String × Int64)) :
    Scope.get? (setAll r log) n = Scope.get? (setAll s log) n := by
  induction log generalizing s r with
  | nil => exact h
  | cons p rest ih =>
      refine ih ?_
      rw [LawfulScope.get?_set, LawfulScope.get?_set, h]

theorem get?_setAll_of_ne {log : List (String × Int64)} {n : String} (h : ∀ p ∈ log, p.1 ≠ n) (s : σ) :
    Scope.get? (setAll s log) n = Scope.get? s n := by
  induction log generalizing s with
  | nil => rfl
  | cons p rest ih =>
      rw [List.forall_mem_cons] at h
      have hrest := ih h.2 (Scope.set s p.1 p.2)
      rwa [LawfulScope.get?_set, if_neg h.1.symm] at hrest

theorem setAll_set {log : List (String × Int64)} {n : String} (h : ∀ p ∈ log, p.1 ≠ n) (s : σ) (v : Int64) :
    setAll (Scope.set s n v) log = Scope.set (setAll s log) n v := by
  induction log generalizing s with
  | nil => rfl
  | cons p rest ih =>
      rw [List.forall_mem_cons] at h
      have hrest := ih h.2 (Scope.set s p.1 p.2)
      rwa [LawfulScope.set_comm s h.1] at hrest

/-- Lists of assignments to different names may be made in either order. -/
theorem setAll_comm {log log' : List (String × Int64)} (h : ∀ p ∈ log, ∀ q ∈ log', q.1 ≠ p.1) (s : σ) :
    setAll (setAll s log) log' = setAll (setAll s log') log := by
  induction log generalizing s with
  | nil => rfl
  | cons p rest ih =>
      rw [List.forall_mem_cons] at h
      have hrest := ih h.2 (Scope.set s p.1 p.2)
      rwa [setAll_set h.1] at hrest

end

end Scope

/-! ### Computations on a scope -/

section
variable {σ τ α β : Type} [Scope σ]

/-- Whether a computation ends in one way in all scopes that have the values of `s` at the names of a list: with one
value, or with a fault in each of them, and with one list of assignments. It leaves the world alone. -/
def Settles (reads : List String) (f : σ → τ → Run σ τ α) (s : σ) (value : Option α) (log : List (String × Int64)) :
    Prop :=
  ∀ r, (∀ n ∈ reads, Scope.get? r n = Scope.get? s n) → ∀ t,
    ∃ result, result.toOption = value ∧ f r t = ⟨result, Scope.setAll r log, t⟩

namespace Settles

variable {reads : List String} {f : σ → τ → Run σ τ α} {s : σ} {log : List (String × Int64)}

theorem ok {a : α} (h : Settles reads f s (some a) log) {r : σ} (hr : ∀ n ∈ reads, Scope.get? r n = Scope.get? s n)
    (t : τ) : f r t = ⟨.ok a, Scope.setAll r log, t⟩ := by
  obtain ⟨fault | a', hresult, hrun⟩ := h r hr t
  · cases hresult
  · cases hresult
    exact hrun

theorem error (h : Settles reads f s none log) {r : σ} (hr : ∀ n ∈ reads, Scope.get? r n = Scope.get? s n) (t : τ) :
    ∃ fault, f r t = ⟨.error fault, Scope.setAll r log, t⟩ := by
  obtain ⟨fault | a, hresult, hrun⟩ := h r hr t
  · exact ⟨fault, hrun⟩
  · cases hresult

theorem after [LawfulScope σ] {value : Option α} (h : Settles reads f s value log) {before : List (String × Int64)}
    (hbefore : ∀ p ∈ before, p.1 ∉ reads) : Settles reads f (Scope.setAll s before) value log := by
  intro r hr
  refine h r fun n hn => (hr n hn).trans ?_
  exact Scope.get?_setAll_of_ne (fun p hp hpn => hbefore p hp (hpn ▸ hn)) s

end Settles

/-- Whether the values of some names settle how a computation ends, with assignments to some names only. -/
def Confined (reads writes : List String) (f : σ → τ → Run σ τ α) : Prop :=
  ∀ s, ∃ value log, (∀ p ∈ log, p.1 ∈ writes) ∧ Settles reads f s value log

namespace Confined

variable {reads writes : List String} {f : σ → τ → Run σ τ α} {next : α → σ → τ → Run σ τ β}

theorem done (result : Except Fault α) : Confined reads writes fun (s : σ) (t : τ) => ⟨result, s, t⟩ :=
  fun _ => ⟨result.toOption, [], by simp, fun _ _ _ => ⟨result, rfl, rfl⟩⟩

theorem set {name : String} (h : name ∈ writes) (v : Int64) :
    Confined reads writes fun (s : σ) (t : τ) => ⟨.ok v, Scope.set s name v, t⟩ :=
  fun _ => ⟨some v, [(name, v)], by simpa using h, fun _ _ _ => ⟨.ok v, rfl, rfl⟩⟩

/-- Computations one after another. The second one starts with the assignments of the first one, which are the same
wherever that is settled. -/
theorem andThen [LawfulScope σ] (hf : Confined reads writes f) (hnext : ∀ a, Confined reads writes (next a)) :
    Confined reads writes fun s t => (f s t).andThen next := by
  intro s
  obtain ⟨value, log, hlog, hf⟩ := hf s
  cases value with
  | none =>
      refine ⟨none, log, hlog, fun r hr t => ?_⟩
      obtain ⟨fault, hrun⟩ := hf.error hr t
      exact ⟨.error fault, rfl, by simp only [hrun, Run.andThen]⟩
  | some a =>
      obtain ⟨value, log', hlog', hnext⟩ := hnext a (Scope.setAll s log)
      refine ⟨value, log ++ log', ?_, fun r hr t => ?_⟩
      · intro p hp
        exact (List.mem_append.mp hp).elim (hlog p) (hlog' p)
      · simp only [hf.ok hr t, Run.andThen, Scope.setAll_append]
        exact hnext (Scope.setAll r log) (fun n hn => Scope.get?_setAll_congr (hr n hn) log) t

end Confined

end

namespace Expr

/-! ### Evaluation -/

section
variable {σ τ : Type} [Scope σ] [LawfulScope σ]

theorem run_of_resolve {fs : List PureFunction} {p : Position} {name : String} {count : Nat} {f : Builtin τ}
    (h : resolve (Builtins.ofFunctions fs) p name count = .ok f) :
    ∃ compute : List Int64 → Int64, f.run = fun vs t => (compute vs, t) := by
  obtain ⟨g, -, rfl⟩ := List.mem_map.mp (mem_of_resolve h)
  exact ⟨g.compute, rfl⟩

/-- The values of the names that an expression reads settle its evaluation, which assigns only names that it writes. -/
theorem eval_confined (fs : List PureFunction) (e : Expr) :
    Confined e.reads e.writes fun (s : σ) (t : τ) => e.eval (Builtins.ofFunctions fs) s t := by
  have h : Sequential (ρ := σ) (Builtins.ofFunctions fs) (Builtins.ofFunctions fs) e.reads e.writes e.operators
      fun α (f : σ → τ → Run σ τ α) _ => Confined e.reads e.writes f :=
    { done := fun a => .done (.ok a)
      andThen := fun hf hnext => hf.andThen hnext
      read := by
        intro name hname p s
        refine ⟨Scope.get? s name, [], by simp, fun r hr t => ?_⟩
        simp only [eval, hr name hname]
        cases Scope.get? s name with
        -- The hint of the fault looks at all names of the scope, so that faults are not compared.
        | none => exact ⟨_, rfl, rfl⟩
        | some v => exact ⟨.ok v, rfl, rfl⟩
      write := fun _ hname v => .set hname v
      operator := fun op _ p x y => .done (combine op p x y)
      refuse := fun hresolve => ⟨hresolve, .done (.error _)⟩
      call := by
        intro p name count f hresolve
        obtain ⟨compute, hrun⟩ := run_of_resolve hresolve
        refine ⟨f, hresolve, fun vs => ?_⟩
        simp only [hrun]
        exact .done (.ok (compute vs)) }
  exact h.eval

end

/-! ### Two operands -/

section
variable {σ τ : Type} [Scope σ] {fns : Builtins τ} {x y : Expr} {s : σ} {t : τ}

theorem evalArgs_pair {s₁ s₂ : σ} {a b : Int64} (hx : x.eval fns s t = ⟨.ok a, s₁, t⟩)
    (hy : y.eval fns s₁ t = ⟨.ok b, s₂, t⟩) : evalArgs fns [x, y] s t = ⟨.ok [a, b], s₂, t⟩ := by
  simp only [evalArgs, hx, hy]

variable [LawfulScope σ] {reads reads' : List String} {value value' : Option Int64} {log log' : List (String × Int64)}

theorem evalArgs_pair_error (hx : Settles reads (fun s t => x.eval fns s t) s value log)
    (hy : Settles reads' (fun s t => y.eval fns s t) s value' log') (hlog : ∀ p ∈ log, p.1 ∉ reads')
    (hnone : value = none ∨ value' = none) : ∃ fault, (evalArgs fns [x, y] s t).result = .error fault := by
  cases value with
  | none =>
      obtain ⟨fault, hrun⟩ := hx.error (fun _ _ => rfl) t
      exact ⟨fault, by simp only [evalArgs, hrun]⟩
  | some a =>
      obtain rfl := hnone.resolve_left (by simp)
      have hrun := hx.ok (fun _ _ => rfl) t
      obtain ⟨fault, hrun'⟩ := (hy.after hlog).error (fun _ _ => rfl) t
      exact ⟨fault, by simp only [evalArgs, hrun, hrun']⟩

end

variable {σ τ : Type} [Scope σ] [LawfulScope σ]

/-- Operands that do not interfere may be evaluated in either order, over any bindings, any overlay and any other lawful
scope, with any functions that only compute. Either both orders have a value for each operand, the same ones, and leave
the same scope, or both fail. -/
theorem operands_commute (fs : List PureFunction) {x y : Expr} (h : x.interferes y = false) (s : σ) (t : τ) :
    let fns : Builtins τ := Builtins.ofFunctions fs
    (∃ a b s', evalArgs fns [x, y] s t = ⟨.ok [a, b], s', t⟩ ∧ evalArgs fns [y, x] s t = ⟨.ok [b, a], s', t⟩) ∨
      ∃ fault fault', (evalArgs fns [x, y] s t).result = .error fault ∧
        (evalArgs fns [y, x] s t).result = .error fault' := by
  intro fns
  obtain ⟨hxy, hyx, hww⟩ := Routine.not_interferes h
  obtain ⟨value, log, hlog, hx⟩ := eval_confined (τ := τ) fs x s
  obtain ⟨value', log', hlog', hy⟩ := eval_confined (τ := τ) fs y s
  have hlogy (p) (hp : p ∈ log) : p.1 ∉ y.reads := hxy p.1 (hlog p hp)
  have hlogx (p) (hp : p ∈ log') : p.1 ∉ x.reads := hyx p.1 (hlog' p hp)
  by_cases hnone : value = none ∨ value' = none
  · obtain ⟨fault, hfault⟩ := evalArgs_pair_error hx hy hlogy hnone
    obtain ⟨fault', hfault'⟩ := evalArgs_pair_error hy hx hlogx hnone.symm
    exact .inr ⟨fault, fault', hfault, hfault'⟩
  · rw [not_or, ← ne_eq, ← ne_eq, Option.ne_none_iff_exists', Option.ne_none_iff_exists'] at hnone
    obtain ⟨⟨a, rfl⟩, b, rfl⟩ := hnone
    have hswap : Scope.setAll (Scope.setAll s log') log = Scope.setAll (Scope.setAll s log) log' :=
      Scope.setAll_comm (fun p hp q hq e => hww q.1 (hlog q hq) (e ▸ hlog' p hp)) s
    have hrun := evalArgs_pair (hx.ok (fun _ _ => rfl) t) ((hy.after hlogy).ok (fun _ _ => rfl) t)
    have hrun' := evalArgs_pair (hy.ok (fun _ _ => rfl) t) ((hx.after hlogx).ok (fun _ _ => rfl) t)
    rw [hswap] at hrun'
    exact .inl ⟨a, b, _, hrun, hrun'⟩

/-- The product of `a = n + 1` and of the new value of `a`. -/
def grownSquare : Expr :=
  .binary (.assign {} "a" {} (.binary (.ident {} "n") {} Operator.add.number (.int {} "1" 1))) {}
    Operator.multiply.number (.ident {} "a")

/-- The factorial of `n`, kept in `c`, or else one, kept in `d`. -/
def keptFactorial : Expr :=
  .cond {} {} (.ident {} "n") (.assign {} "c" {} (.call {} "fact" {} [.ident {} "n"] {}))
    (.assign {} "d" {} (.int {} "1" 1)) {}

/-- Both read `n`, and each assigns names of its own. -/
theorem grownSquare_keptFactorial_commute :
    let fns : Builtins Unit := Builtins.ofFunctions PureFunction.defaults
    let before := Bindings.ofList [("n", 5)]
    let after := Bindings.ofList [("a", 6), ("c", 120), ("n", 5)]
    grownSquare.interferes keptFactorial = false ∧
      evalArgs fns [grownSquare, keptFactorial] before () = ⟨.ok [36, 120], after, ()⟩ ∧
      evalArgs fns [keptFactorial, grownSquare] before () = ⟨.ok [120, 36], after, ()⟩ := by
  intro fns before after
  have hapart : grownSquare.interferes keptFactorial = false := by decide
  have hrun : evalArgs fns [grownSquare, keptFactorial] before () = ⟨.ok [36, 120], after, ()⟩ := rfl
  refine ⟨hapart, hrun, ?_⟩
  rcases operands_commute PureFunction.defaults hapart before () with ⟨a, b, s, hxy, hyx⟩ | ⟨fault, -, hxy, -⟩
  · cases hrun.symm.trans hxy
    exact hyx
  · cases (congrArg Run.result hrun).symm.trans hxy

end Expr

end TierCalc
