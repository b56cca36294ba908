import TierCalc.Proofs.Eval.Bindings
import TierCalc.Proofs.Eval.Sequencing

/-!
# Evaluation on an overlay

Evaluation knows a scope by its three operations only. Two scopes of different types that these cannot tell apart, now
and after any assignments to the names that an expression assigns, give the same value or the same error, and are left
in a state in which they still cannot be told apart (`eval_indistinct`).

An overlay and the bindings that it shows are such scopes. So evaluation on an overlay has the outcome of evaluation on
the bindings below it, hints of errors included, and its assignments are all that the latter changes
(`overlay_refines`).
-/

namespace TierCalc

/-- Whether related scopes have the same values and the same names, and stay related if one of some names is assigned
in both. -/
structure Scope.Indistinct {σ ρ : Type} [Scope σ] [Scope ρ] (targets : List String) (R : σ → ρ → Prop) : Prop where
  get? : ∀ {s : σ} {r : ρ}, R s r → ∀ name, Scope.get? s name = Scope.get? r name
  names : ∀ {s : σ} {r : ρ}, R s r → Scope.names s = Scope.names r
  set : ∀ {s : σ} {r : ρ}, R s r → ∀ name ∈ targets, ∀ v, R (Scope.set s name v) (Scope.set r name v)

/-- Whether two runs ended in the same way, with related scopes and one world. -/
inductive Run.Related {σ ρ τ α : Type} (R : σ → ρ → Prop) : Run σ τ α → Run ρ τ α → Prop where
  | same (result : Except Fault α) {s : σ} {r : ρ} (h : R s r) (t : τ) : Related R ⟨result, s, t⟩ ⟨result, r, t⟩

namespace Expr

/-! ### Scopes that cannot be told apart -/

section
variable {σ ρ τ : Type} [Scope σ] [Scope ρ] {targets : List String} {R : σ → ρ → Prop} {fns : Builtins τ}

/-- On scopes that cannot be told apart, evaluation does the same. -/
theorem eval_indistinct (hR : Scope.Indistinct targets R) (e : Expr) (he : ∀ name ∈ e.writes, name ∈ targets) {s : σ}
    {r : ρ} (h : R s r) (t : τ) : Run.Related R (e.eval fns s t) (e.eval fns r t) := by
  have hsteps : Sequential fns fns e.reads e.writes e.operators
      fun α (f : σ → τ → Run σ τ α) (g : ρ → τ → Run ρ τ α) => ∀ s r, R s r → ∀ t, Run.Related R (f s t) (g r t) :=
    { done := fun a _ _ h t => .same (.ok a) h t
      andThen := by
        intro α β f g next next' hf hnext s r h t
        have hfirst := hf s r h t
        dsimp only
        generalize f s t = x at hfirst ⊢
        generalize g r t = y at hfirst ⊢
        obtain @⟨fault | a, s, r, h, t⟩ := hfirst
        · exact .same (.error fault) h t
        · exact hnext a s r h t
      read := by
        intro name _ p s r h t
        simp only [eval, hR.get? h name, hR.names h]
        cases Scope.get? r name with
        | none => exact .same _ h t
        | some v => exact .same (.ok v) h t
      write := fun name hname v _ _ h t => .same (.ok v) (hR.set h name (he name hname) v) t
      operator := fun op _ p x y _ _ h t => .same (combine op p x y) h t
      refuse := fun hresolve => ⟨hresolve, fun _ _ h t => .same (.error _) h t⟩
      call := fun {_ _ _ f} hresolve => ⟨f, hresolve, fun vs _ _ h t => .same (.ok (f.run vs t).1) h (f.run vs t).2⟩ }
  exact hsteps.eval s r h t

end

end Expr

/-! ### Overlays -/

namespace Bindings

theorem update_set {base writes : Bindings} (hbase : base.Ordered) (hwrites : writes.Ordered) (name : String)
    (value : Int64) : base.update (writes.set name value) = (base.update writes).set name value := by
  apply Ordered.ext
  · exact hbase.update _
  · exact (hbase.update _).set name value
  · intro n
    rw [get?_update base (hwrites.set name value), get?_set, get?_set, get?_update base hwrites]
    by_cases hn : n = name
    · rw [if_pos hn, if_pos hn, Option.some_or]
    · rw [if_neg hn, if_neg hn]

theorem mem_names_set {b : Bindings} {name n : String} {value : Int64} (h : n ∈ (b.set name value).names) :
    n = name ∨ n ∈ b.names := by
  obtain ⟨p, hp, rfl⟩ := List.mem_map.mp h
  rcases mem_put hp with rfl | hp
  · exact .inl rfl
  · exact .inr (List.mem_map_of_mem hp)

end Bindings

namespace Overlay

/-- Whether an overlay lies on a base, assigns only some names, and shows the bindings. -/
structure Shows (base : Bindings) (targets : List String) (o : Overlay) (shown : Bindings) : Prop where
  base_eq : o.base = base
  ordered : o.writes.Ordered
  shown_eq : shown = base.update o.writes
  within : ∀ name ∈ o.writes.names, name ∈ targets

theorem shows_on (base : Bindings) (targets : List String) : Shows base targets (on base) base :=
  ⟨rfl, Bindings.ordered_empty, rfl, by intro name hname; cases hname⟩

/-- An overlay cannot be told from the bindings that it shows. -/
theorem shows_indistinct {base : Bindings} (hbase : base.Ordered) (targets : List String) :
    Scope.Indistinct targets (Shows base targets) := by
  constructor
  · intro o shown h name
    rw [h.shown_eq]
    change (o.writes.get? name).or (o.base.get? name) = (base.update o.writes).get? name
    rw [Bindings.get?_update base h.ordered, h.base_eq]
  · intro o shown h
    rw [h.shown_eq, ← h.base_eq]
    rfl
  · intro o shown h name hname v
    refine ⟨h.base_eq, h.ordered.set name v, ?_, ?_⟩
    · rw [h.shown_eq]
      exact (Bindings.update_set hbase h.ordered name v).symm
    · intro n hn
      rcases Bindings.mem_names_set hn with rfl | hn
      · exact hname
      · exact h.within n hn

end Overlay

namespace Expr

/-- On an overlay over any variables, evaluation has the value or the error, with its message, place and hint, that it
has on the variables themselves. Either way the variables are then what they were with the assignments of the overlay
made to them; these are to names that the expression assigns; and the bindings below the overlay are unchanged. -/
theorem overlay_refines {τ : Type} (fns : Builtins τ) (e : Expr) (vars : List (String × Int64)) (t : τ) :
    let base := Bindings.ofList vars
    let overlaid := e.eval fns (Overlay.on base) t
    let direct := e.eval fns base t
    overlaid.result = direct.result ∧ overlaid.world = direct.world ∧
      direct.scope = base.update overlaid.scope.writes ∧
      (∀ name ∈ overlaid.scope.writes.names, name ∈ e.writes) ∧ overlaid.scope.base = base := by
  intro base overlaid direct
  have hindistinct := Overlay.shows_indistinct (Bindings.ordered_ofList vars) e.writes
  have hrelated : Run.Related (Overlay.Shows base e.writes) overlaid direct :=
    eval_indistinct hindistinct e (fun _ h => h) (Overlay.shows_on base e.writes) t
  clear_value overlaid direct
  obtain ⟨result, hshows, t'⟩ := hrelated
  exact ⟨rfl, rfl, hshows.shown_eq, hshows.within, hshows.base_eq⟩

/-- The sum of an assignment to `total` and of the variable `totl`. -/
def misspelledSum : Expr :=
  .binary (.assign {} "total" {} (.int {} "1" 1)) {} Operator.add.number (.ident { column := 12 } "totl")

/-- The error for the unbound name, whose hint is the name that was assigned just before. -/
def misspelledError : EvalError := ⟨.undefinedVariable "totl", { line := 1, column := 13 }, "did you mean 'total'?"⟩

/-- The sum fails on an overlay and on the variables with one error, after one assignment. -/
theorem misspelledSum_refines :
    let base := Bindings.ofList [("x", 5)]
    let overlaid := misspelledSum.eval (Builtins.withDefaults []) (Overlay.on base) ()
    let direct := misspelledSum.eval (Builtins.withDefaults []) base ()
    overlaid.result = .error (.error misspelledError) ∧ direct.result = .error (.error misspelledError) ∧
      direct.scope = Bindings.ofList [("total", 1), ("x", 5)] ∧ overlaid.scope.base = base ∧
      "total" ∈ misspelledSum.writes := by
  intro base overlaid direct
  obtain ⟨hresult, -, hscope, hwrites, hbase⟩ := overlay_refines (Builtins.withDefaults []) misspelledSum [("x", 5)] ()
  have hhint : Suggestion.question (Suggestion.similar "totl" ["total", "x"]) = "did you mean 'total'?" := by
    decide +kernel
  have hoverlaid : overlaid.result = .error (.error misspelledError) := by
    rw [misspelledError, ← hhint]
    rfl
  have hassigned : overlaid.scope.writes = Bindings.ofList [("total", 1)] := rfl
  refine ⟨hoverlaid, hresult.symm.trans hoverlaid, hscope.trans ?_, hbase, hwrites "total" ?_⟩
  · change base.update overlaid.scope.writes = _
    rw [hassigned]
    decide
  · change "total" ∈ overlaid.scope.writes.names
    rw [hassigned]
    decide

end Expr

end TierCalc
