import Mathlib.Tactic.Common
import TierCalc.Eval.Evaluate
import TierCalc.Proofs.Expr.Induction

/-!
# Evaluation one part after another

Evaluation puts computations in a row: each goes on with the value, the scope and the world of the one before, unless
that ended with a fault (`Run.andThen`). So whatever relates the steps of two evaluations of an expression, and is kept
when computations are put in a row, relates the evaluations (`Sequential.eval`). The steps are reading a name that the
expression reads, assigning a name that it assigns, applying one of its operators, and calling a builtin. A property of
one evaluation is such a relation too, with itself.
-/

namespace TierCalc

/-- The run that goes on with the value of another run, if it has one. -/
def Run.andThen {σ τ α β : Type} (x : Run σ τ α) (next : α → σ → τ → Run σ τ β) : Run σ τ β :=
  match x with
  | ⟨.error fault, s, t⟩ => ⟨.error fault, s, t⟩
  | ⟨.ok a, s, t⟩ => next a s t

namespace Expr

mutual

def operators : Expr → List UInt8
  | int _ _ _ => []
  | ident _ _ => []
  | binary l _ op r => op :: (l.operators ++ r.operators)
  | assign _ _ _ v => v.operators
  | call _ _ _ args _ => argsOperators args
  | cond _ _ c y n _ => c.operators ++ (y.operators ++ n.operators)

def argsOperators : List Expr → List UInt8
  | [] => []
  | a :: rest => a.operators ++ argsOperators rest

end

theorem argsOperators_eq (args : List Expr) : argsOperators args = args.flatMap operators := by
  induction args with
  | nil => rfl
  | cons a rest ih => rw [argsOperators, ih, List.flatMap_cons]

section
variable {σ τ : Type} [Scope σ] (fns : Builtins τ)

theorem eval_binary_eq (l r : Expr) (p : Position) (op : UInt8) (s : σ) (t : τ) :
    (binary l p op r).eval fns s t =
      (l.eval fns s t).andThen fun x s t => (r.eval fns s t).andThen fun y s t => ⟨combine op p x y, s, t⟩ := by
  rw [eval]
  rcases l.eval fns s t with ⟨fault | x, s', t'⟩
  · rfl
  · dsimp only [Run.andThen]
    rcases r.eval fns s' t' with ⟨fault | y, s'', t''⟩ <;> rfl

theorem eval_assign_eq (p q : Position) (name : String) (v : Expr) (s : σ) (t : τ) :
    (assign p name q v).eval fns s t = (v.eval fns s t).andThen fun x s t => ⟨.ok x, Scope.set s name x, t⟩ := by
  rw [eval]
  rcases v.eval fns s t with ⟨fault | x, s', t'⟩ <;> rfl

theorem eval_cond_eq (p q q' : Position) (c y n : Expr) (s : σ) (t : τ) :
    (cond p q c y n q').eval fns s t =
      (c.eval fns s t).andThen fun v s t => if v ≠ 0 then y.eval fns s t else n.eval fns s t := by
  rw [eval]
  rcases c.eval fns s t with ⟨fault | v, s', t'⟩ <;> rfl

theorem evalArgs_cons_eq (a : Expr) (rest : List Expr) (s : σ) (t : τ) :
    evalArgs fns (a :: rest) s t =
      (a.eval fns s t).andThen fun v s t => (evalArgs fns rest s t).andThen fun vs s t => ⟨.ok (v :: vs), s, t⟩ := by
  rw [evalArgs]
  rcases a.eval fns s t with ⟨fault | v, s', t'⟩
  · rfl
  · dsimp only [Run.andThen]
    rcases evalArgs fns rest s' t' with ⟨fault | vs, s'', t''⟩ <;> rfl

theorem eval_call_eq {p : Position} {name : String} {args : List Expr} {f : Builtin τ}
    (h : resolve fns p name args.length = .ok f) (q q' : Position) (s : σ) (t : τ) :
    (call p name q args q').eval fns s t =
      (evalArgs fns args s t).andThen fun vs s t => ⟨.ok (f.run vs t).1, s, (f.run vs t).2⟩ := by
  rw [eval, h]
  dsimp only
  rcases evalArgs fns args s t with ⟨fault | vs, s', t'⟩ <;> rfl

variable {fns}

theorem mem_of_resolve {p : Position} {name : String} {count : Nat} {f : Builtin τ}
    (h : resolve fns p name count = .ok f) : f ∈ fns.entries := by
  unfold resolve at h
  split at h
  · cases h
  · rename_i g hg
    split_ifs at h
    obtain rfl := Except.ok.inj h
    exact List.mem_of_find?_eq_some hg

end

section
variable {σ ρ τ υ : Type} [Scope σ] [Scope ρ] {fns : Builtins τ} {gns : Builtins υ}
  {reads writes reads' writes' : List String} {operators operators' : List UInt8}
  {C : ∀ α : Type, (σ → τ → Run σ τ α) → (ρ → υ → Run ρ υ α) → Prop}

/-- Whether a relation between computations relates the steps of two evaluations and is kept when they are put in a
row. -/
structure Sequential (fns : Builtins τ) (gns : Builtins υ) (reads writes : List String) (operators : List UInt8)
    (C : ∀ α : Type, (σ → τ → Run σ τ α) → (ρ → υ → Run ρ υ α) → Prop) : Prop where
  done : ∀ {α : Type} (a : α), C α (fun s t => ⟨.ok a, s, t⟩) (fun s t => ⟨.ok a, s, t⟩)
  andThen : ∀ {α β : Type} {f : σ → τ → Run σ τ α} {g : ρ → υ → Run ρ υ α} {next : α → σ → τ → Run σ τ β}
    {next' : α → ρ → υ → Run ρ υ β}, C α f g → (∀ a, C β (next a) (next' a)) →
    C β (fun s t => (f s t).andThen next) (fun s t => (g s t).andThen next')
  read : ∀ name ∈ reads, ∀ p : Position,
    C Int64 (fun s t => (ident p name).eval fns s t) (fun s t => (ident p name).eval gns s t)
  write : ∀ name ∈ writes, ∀ v,
    C Int64 (fun s t => ⟨.ok v, Scope.set s name v, t⟩) (fun s t => ⟨.ok v, Scope.set s name v, t⟩)
  operator : ∀ op ∈ operators, ∀ p x y,
    C Int64 (fun s t => ⟨combine op p x y, s, t⟩) (fun s t => ⟨combine op p x y, s, t⟩)
  refuse : ∀ {p name count fault}, resolve fns p name count = .error fault →
    resolve gns p name count = .error fault ∧
      C Int64 (fun s t => ⟨.error fault, s, t⟩) (fun s t => ⟨.error fault, s, t⟩)
  call : ∀ {p name count f}, resolve fns p name count = .ok f → ∃ g, resolve gns p name count = .ok g ∧
    ∀ vs, C Int64 (fun s t => ⟨.ok (f.run vs t).1, s, (f.run vs t).2⟩)
      (fun s t => ⟨.ok (g.run vs t).1, s, (g.run vs t).2⟩)

namespace Sequential

theorem mono (h : Sequential fns gns reads writes operators C) (hr : reads' ⊆ reads) (hw : writes' ⊆ writes)
    (ho : operators' ⊆ operators) : Sequential fns gns reads' writes' operators' C :=
  { h with
    read := fun name hname => h.read name (hr hname)
    write := fun name hname => h.write name (hw hname)
    operator := fun op hop => h.operator op (ho hop) }

theorem evalArgs (h : Sequential fns gns reads writes operators C) {args : List Expr}
    (hargs : ∀ a ∈ args, C Int64 (fun s t => a.eval fns s t) (fun s t => a.eval gns s t)) :
    C (List Int64) (fun s t => evalArgs fns args s t) (fun s t => evalArgs gns args s t) := by
  induction args with
  | nil =>
      simp only [Expr.evalArgs]
      exact h.done []
  | cons a rest ih =>
      rw [List.forall_mem_cons] at hargs
      simp only [evalArgs_cons_eq]
      exact h.andThen hargs.1 fun v => h.andThen (ih hargs.2) fun vs => h.done (v :: vs)

/-- What relates the steps relates the evaluations. -/
theorem eval {e : Expr} (h : Sequential fns gns e.reads e.writes e.operators C) :
    C Int64 (fun s t => e.eval fns s t) (fun s t => e.eval gns s t) := by
  induction e using nodeInduction with
  | int p literal v =>
      simp only [Expr.eval]
      exact h.done v
  | ident p name => exact h.read name (by simp) p
  | binary l p op r ihl ihr =>
      have hl := ihl (h.mono (by simp) (by simp) (by simp [Expr.operators]))
      have hr := ihr (h.mono (by simp) (by simp) (by simp [Expr.operators]))
      simp only [eval_binary_eq]
      exact h.andThen hl fun x => h.andThen hr fun y => h.operator op (by simp [Expr.operators]) p x y
  | assign p name q v ih =>
      have hv := ih (h.mono (by simp) (by simp) (by simp [Expr.operators]))
      simp only [eval_assign_eq]
      exact h.andThen hv (h.write name (by simp))
  | call p name q args r ih =>
      have hpart {β : Type} (f : Expr → List β) {a : Expr} (ha : a ∈ args) : f a ⊆ args.flatMap f :=
        fun _ hb => List.mem_flatMap.mpr ⟨a, ha, hb⟩
      rw [reads_call, writes_call, Expr.operators, argsOperators_eq] at h
      have hargs := h.evalArgs fun a ha => ih a ha (h.mono (hpart _ ha) (hpart _ ha) (hpart _ ha))
      cases hresolve : resolve fns p name args.length with
      | error fault =>
          obtain ⟨hresolve', hrefuse⟩ := h.refuse hresolve
          simpa only [Expr.eval, hresolve, hresolve'] using hrefuse
      | ok f =>
          obtain ⟨g, hresolve', hcall⟩ := h.call hresolve
          simp only [eval_call_eq _ hresolve, eval_call_eq _ hresolve']
          exact h.andThen hargs hcall
  | cond p q c y n r ihc ihy ihn =>
      have hc := ihc (h.mono (by simp) (by simp) (by simp [Expr.operators]))
      have hy := ihy (h.mono (by simp) (by simp) (by simp [Expr.operators]))
      have hn := ihn (h.mono (by simp) (by simp) (by simp [Expr.operators]))
      simp only [eval_cond_eq]
      refine h.andThen hc fun v => ?_
      split_ifs
      · exact hy
      · exact hn

end Sequential

end

end Expr

end TierCalc
