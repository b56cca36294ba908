import TierCalc.Proofs.Eval.Sequencing

/-!
# Functions that only compute

A table of functions that look at their arguments only can be used with any world, and evaluation with it neither
depends on the world nor changes it (`eval_ofFunctions`).
-/

namespace TierCalc

/-- A function of its arguments only. -/
structure PureFunction where
  name : String
  arity : Int
  compute : List Int64 → Int64

/-- The table of functions, beside a world of any type. -/
def Builtins.ofFunctions {τ : Type} (fs : List PureFunction) : Builtins τ :=
  ⟨fs.map fun f => Builtin.pure f.name f.arity f.compute⟩

def PureFunction.defaults : List PureFunction :=
  [⟨"fact", 1, fun args => Builtin.factorial (args.getD 0 0)⟩,
   ⟨"fib", 1, fun args => Builtin.fibonacci (args.getD 0 0)⟩,
   ⟨"pow", 2, fun args => Builtin.power (args.getD 0 0) (args.getD 1 0)⟩]

/-- The run with another world. -/
def Run.beside {σ τ υ α : Type} (r : Run σ τ α) (t : υ) : Run σ υ α := ⟨r.result, r.scope, t⟩

namespace Expr

variable {σ τ : Type} [Scope σ] (fs : List PureFunction)

theorem find?_ofFunctions (name : String) :
    (Builtins.ofFunctions fs : Builtins τ).find? name =
      (fs.find? (·.name == name)).map fun f => Builtin.pure f.name f.arity f.compute := by
  rw [Builtins.find?, Builtins.ofFunctions, List.find?_map]
  rfl

/-- A call is resolved in the same way beside any world, to a function that only computes. -/
theorem resolve_ofFunctions (τ : Type) (p : Position) (name : String) (count : Nat) :
    (∃ fault, resolve (Builtins.ofFunctions fs : Builtins Unit) p name count = .error fault ∧
      resolve (Builtins.ofFunctions fs : Builtins τ) p name count = .error fault) ∨
    ∃ f : PureFunction, resolve (Builtins.ofFunctions fs : Builtins Unit) p name count
        = .ok (Builtin.pure f.name f.arity f.compute) ∧
      resolve (Builtins.ofFunctions fs : Builtins τ) p name count = .ok (Builtin.pure f.name f.arity f.compute) := by
  have hnames : (Builtins.ofFunctions fs : Builtins τ).names = (Builtins.ofFunctions fs : Builtins Unit).names := by
    simp [Builtins.names, Builtins.ofFunctions, Builtin.pure]
  simp only [resolve, find?_ofFunctions, hnames]
  cases fs.find? (·.name == name) with
  | none => exact .inl ⟨_, rfl, rfl⟩
  | some f =>
      by_cases h : (count : Int) = f.arity
      · exact .inr ⟨f, if_pos h, if_pos h⟩
      · exact .inl ⟨_, if_neg h, if_neg h⟩

/-- Evaluation with functions that only compute is the same beside any world. -/
theorem eval_ofFunctions (e : Expr) (s : σ) (t : τ) :
    e.eval (Builtins.ofFunctions fs) s t = (e.eval (Builtins.ofFunctions fs) s ()).beside t := by
  have h : Sequential (Builtins.ofFunctions fs) (Builtins.ofFunctions fs) e.reads e.writes e.operators
      fun α (f : σ → τ → Run σ τ α) (g : σ → Unit → Run σ Unit α) => ∀ s t, f s t = (g s ()).beside t :=
    { done := fun _ _ _ => rfl
      andThen := by
        intro α β f g next next' hf hnext s t
        dsimp only
        rw [hf]
        rcases g s () with ⟨fault | a, s', ⟨⟩⟩
        · rfl
        · exact hnext a s' t
      read := by
        intro name _ p s t
        simp only [eval]
        cases Scope.get? s name <;> rfl
      write := fun _ _ _ _ _ => rfl
      operator := fun _ _ _ _ _ _ _ => rfl
      refuse := by
        intro p name count fault hresolve
        rcases resolve_ofFunctions fs τ p name count with ⟨fault', h₁, h₂⟩ | ⟨f, h₁, h₂⟩
        · cases h₂.symm.trans hresolve
          exact ⟨h₁, fun _ _ => rfl⟩
        · cases h₂.symm.trans hresolve
      call := by
        intro p name count f hresolve
        rcases resolve_ofFunctions fs τ p name count with ⟨fault', h₁, h₂⟩ | ⟨f', h₁, h₂⟩
        · cases h₂.symm.trans hresolve
        · cases h₂.symm.trans hresolve
          exact ⟨_, h₁, fun _ _ _ => rfl⟩ }
  exact h.eval s t

end Expr

end TierCalc
