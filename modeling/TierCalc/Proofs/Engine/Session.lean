import TierCalc.Proofs.Engine.Execution
import TierCalc.Proofs.Routine.Explored
import TierCalc.Proofs.Source.Lexer

/-!
# Sessions with an engine

Requests to an engine, one after another. The plain machine answers the same requests from variables alone: it
evaluates every expression, and has neither a profile nor code.

* `serve_sound`: whatever is asked, the code that the engine holds stays sound.
* `serve_plain`: the engine answers what the plain machine answers, as long as fingerprints tell the submitted
  expressions apart.
-/

namespace TierCalc

/-- A request of a session. -/
inductive Session.Request where
  | execute (source : Source) (cancelled : Bool)
  | executeExpr (e : Expr) (cancelled : Bool)
  | setVariable (name : String) (value : Int64)
  | environment
  | reset

/-- An answer of a session. An execution answers its value and the variables after it. -/
inductive Session.Answer where
  | executed (r : Except EngineError (Int64 × Bindings))
  | done (r : Except EngineError Unit)
  | environment (r : Except EngineError Bindings)

namespace Session

def Request.expr? : Request → Option Expr
  | execute source cancelled => (Expr.parse source { cancelled := cancelled }).toOption
  | executeExpr e _ => some e
  | _ => none

/-- The expressions that requests submit. -/
def submitted (requests : List Request) : List Expr := requests.filterMap Request.expr?

/-- The answers of a machine to requests one after another, and its last state. -/
def serve {σ : Type} (answer : σ → Request → Answer × σ) : σ → List Request → List Answer × σ
  | s, [] => ([], s)
  | s, r :: rest =>
      let (a, s) := answer s r
      let (as, s) := serve answer s rest
      (a :: as, s)

end Session

open Session

/-- The answer of the plain machine to a submission. -/
def Plain.executed (fs : List PureFunction) (e : Expr) (env : Bindings) : Answer × Bindings :=
  let (r, env) := Plain.execute fs e env
  (.executed (r.map (·, env)), env)

/-- The plain machine: variables only. -/
def Plain.answer (fs : List PureFunction) (env : Bindings) : Request → Answer × Bindings
  | .execute source cancelled =>
      match Expr.parse source { cancelled := cancelled } with
      | .error r => (.executed (.error (.malformed r)), env)
      | .ok e => Plain.executed fs e env
  | .executeExpr e _ => Plain.executed fs e env
  | .setVariable name value => (.done (.ok ()), env.set name value)
  | .environment => (.environment (.ok env), env)
  | .reset => (.done (.ok ()), .empty)

namespace Engine

/-- The engine as a machine that answers requests. -/
def answer (fs : List PureFunction) (s : Engine) : Request → Answer × Engine
  | .execute source cancelled =>
      Prod.map (fun r => .executed (r.map Execution.answer)) id (s.execute (Builtins.ofFunctions fs) source cancelled)
  | .executeExpr e cancelled =>
      Prod.map (fun r => .executed (r.map Execution.answer)) id (s.executeExpr (Builtins.ofFunctions fs) e cancelled)
  | .setVariable name value => Prod.map .done id (s.setVariable name value)
  | .environment => Prod.map .environment id s.bindings
  | .reset => Prod.map .done id s.reset

section
variable {P : Expr → Prop} {s : Engine} {fs : List PureFunction}

/-! ### One request -/

theorem enter_eq (hs : Sound P s) (cancelled : Bool) : s.enter cancelled = (.ok (), s) := by
  simp [enter, hs.unlocked, hs.opened]

/-- All entries are given up without a failure. -/
theorem Sound.clearCache (hs : Sound P s) :
    ∃ arena', s.clearCache = (.ok (), { s with cache := s.cache.clear.2, arena := arena' }) := by
  obtain ⟨arena', hrelease⟩ := hs.stock.releaseAll
  refine ⟨arena', ?_⟩
  simp only [Engine.clearCache, Cache.discard, Cache.clear, hrelease]
  rfl

theorem Sound.reset_eq (hs : Sound P s) :
    ∃ arena log, s.reset = (.ok (),
      { s with cache := s.cache.clear.2, counters := {}, busy := 0, env := .empty, arena := arena, log := log }) := by
  obtain ⟨arena, hclear⟩ := hs.clearCache
  rw [Engine.reset, enter_eq hs]
  dsimp only
  rw [hclear]
  exact ⟨arena, _, rfl⟩

theorem Sound.reset (hs : Sound P s) :
    s.reset.1 = .ok () ∧ Sound P s.reset.2 ∧ s.reset.2.env = .empty := by
  obtain ⟨arena, log, hreset⟩ := hs.reset_eq
  rw [hreset]
  exact ⟨rfl, ⟨hs.unlocked, hs.opened, Stock.nil⟩, rfl⟩

theorem execute_of_parse {source : Source} {cancelled : Bool} {e : Expr} (fns : Builtins Engine)
    (h : Expr.parse source { cancelled := cancelled } = .ok e) :
    s.execute fns source cancelled = s.executeExpr fns e cancelled := by
  rw [execute, h]

/-- Every request keeps the code sound. -/
theorem Sound.answer (hs : Sound P s) (fs : List PureFunction) {r : Request} (hr : ∀ e, r.expr? = some e → P e) :
    Sound P (s.answer fs r).2 := by
  cases r with
  | execute source cancelled =>
      cases h : Expr.parse source { cancelled := cancelled } with
      | error fault =>
          simp only [Engine.answer, execute, h]
          exact hs
      | ok e =>
          simp only [Engine.answer, execute_of_parse _ h]
          exact hs.executeExpr (hr e (by rw [Request.expr?, h]; rfl)) fs cancelled
  | executeExpr e cancelled => exact hs.executeExpr (hr e rfl) fs cancelled
  | setVariable name value =>
      simp only [Engine.answer, setVariable, enter_eq hs]
      exact ⟨hs.unlocked, hs.opened, hs.stock⟩
  | environment =>
      simp only [Engine.answer, bindings, query, enter_eq hs]
      exact hs
  | reset => exact hs.reset.2.1

theorem executed_plain (hP : Separated P) (hs : Sound P s) {e : Expr} (he : P e) (fs : List PureFunction)
    (cancelled : Bool) :
    (s.answer fs (.executeExpr e cancelled)).1 = (Plain.executed fs e s.env).1 ∧
      (s.answer fs (.executeExpr e cancelled)).2.env = (Plain.executed fs e s.env).2 := by
  obtain ⟨hanswer, henv⟩ := executeExpr_answer hP hs he fs cancelled
  exact ⟨congrArg Answer.executed hanswer, henv⟩

/-- Every request has the answer of the plain machine, and leaves its variables. -/
theorem answer_plain (hP : Separated P) (hs : Sound P s) (fs : List PureFunction) {r : Request}
    (hr : ∀ e, r.expr? = some e → P e) :
    (s.answer fs r).1 = (Plain.answer fs s.env r).1 ∧ (s.answer fs r).2.env = (Plain.answer fs s.env r).2 := by
  cases r with
  | execute source cancelled =>
      cases h : Expr.parse source { cancelled := cancelled } with
      | error fault =>
          simp only [Engine.answer, Plain.answer, execute, h]
          exact ⟨rfl, rfl⟩
      | ok e =>
          have he : P e := hr e (by rw [Request.expr?, h]; rfl)
          simp only [Engine.answer, Plain.answer, execute_of_parse _ h, h]
          exact executed_plain hP hs he fs cancelled
  | executeExpr e cancelled => exact executed_plain hP hs (hr e rfl) fs cancelled
  | setVariable name value =>
      simp only [Engine.answer, Plain.answer, setVariable, enter_eq hs]
      exact ⟨rfl, rfl⟩
  | environment =>
      simp only [Engine.answer, Plain.answer, bindings, query, enter_eq hs]
      exact ⟨rfl, rfl⟩
  | reset =>
      obtain ⟨hok, -, henv⟩ := hs.reset
      exact ⟨congrArg Answer.done hok, henv⟩

/-! ### All requests -/

theorem new_eq {config : Config} {vars : Bindings} (h : Engine.new config vars = .ok s) :
    config.check = .ok () ∧
      s = { config := config, cache := Cache.new config.hotThreshold config.maxEntries, env := vars } := by
  unfold Engine.new at h
  split at h
  · rename_i hcheck
    rw [Config.effective_native] at h
    exact ⟨hcheck, (Except.ok.inj h).symm⟩
  · cases h

theorem new_sound {config : Config} {vars : Bindings} (h : Engine.new config vars = .ok s) :
    Sound P s ∧ s.env = vars := by
  obtain ⟨-, rfl⟩ := new_eq h
  exact ⟨⟨rfl, rfl, Stock.nil⟩, rfl⟩

theorem submitted_append (l m : List Request) : submitted (l ++ m) = submitted l ++ submitted m :=
  List.filterMap_append

theorem submitted_cons {r : Request} {requests : List Request} :
    (∀ e ∈ submitted (r :: requests), P e) ↔ (∀ e, r.expr? = some e → P e) ∧ ∀ e ∈ submitted requests, P e := by
  simp only [submitted, List.mem_filterMap, List.mem_cons]
  constructor
  · exact fun h => ⟨fun e he => h e ⟨r, .inl rfl, he⟩, fun e ⟨q, hq, he⟩ => h e ⟨q, .inr hq, he⟩⟩
  · rintro ⟨hfirst, hrest⟩ e ⟨q, rfl | hq, he⟩
    · exact hfirst e he
    · exact hrest e ⟨q, hq, he⟩

/-- The code that an engine holds is sound after any session. -/
theorem serve_sound (hs : Sound P s) (fs : List PureFunction) (requests : List Request)
    (hr : ∀ e ∈ submitted requests, P e) : Sound P (serve (answer fs) s requests).2 := by
  induction requests generalizing s with
  | nil => exact hs
  | cons r rest ih =>
      obtain ⟨hfirst, hrest⟩ := submitted_cons.mp hr
      exact ih (hs.answer fs hfirst) hrest

theorem serve_plain (hP : Separated P) (hs : Sound P s) (fs : List PureFunction) (requests : List Request)
    (hr : ∀ e ∈ submitted requests, P e) :
    (serve (answer fs) s requests).1 = (serve (Plain.answer fs) s.env requests).1 ∧
      (serve (answer fs) s requests).2.env = (serve (Plain.answer fs) s.env requests).2 := by
  induction requests generalizing s with
  | nil => exact ⟨rfl, rfl⟩
  | cons r rest ih =>
      obtain ⟨hfirst, hrest⟩ := submitted_cons.mp hr
      obtain ⟨hanswer, henv⟩ := answer_plain hP hs fs hfirst
      obtain ⟨hanswers, henvs⟩ := ih (hs.answer fs hfirst) hrest
      rw [henv] at hanswers henvs
      exact ⟨congrArg₂ List.cons hanswer hanswers, henvs⟩

end

/-! ### A session -/

def quotientSource : Source := ⟨[55, 47, 121], ""⟩

/-- A place on the first line. -/
def column (n : Int) : Position := { offset := n, column := n }

def quotient : Expr := .binary (.int (column 0) "7" 7) (column 1) Operator.divide.number (.ident (column 2) "y")

/-- Requests that divide by a variable with a value, by zero, and by a variable without a value. -/
def quotientRequests : List Request :=
  [.setVariable "y" 2, .execute quotientSource false, .setVariable "y" 0, .execute quotientSource false, .environment,
   .reset, .execute quotientSource false]

theorem parse_quotient : Expr.parse quotientSource { cancelled := false } = .ok quotient := by
  have htokens : quotientSource.tokens =
      .more ⟨.int, "7", column 0, column 1⟩ (.more ⟨.slash, "/", column 1, column 2⟩
        (.more ⟨.ident, "y", column 2, column 3⟩ (.done ⟨.eof, "", column 3, column 3⟩))) := by
    rw [Source.tokens, Lexer.stream_more (by decide) rfl, Lexer.stream_more (by decide) rfl,
      Lexer.stream_more (by decide) rfl, Lexer.stream_done (by decide)]
    decide
  rw [Expr.parse, htokens]
  rfl

theorem submitted_quotient : submitted quotientRequests = [quotient, quotient, quotient] := by
  have hexpr : (Request.execute quotientSource false).expr? = some quotient := by
    rw [Request.expr?, parse_quotient]
    rfl
  simp only [submitted, quotientRequests, List.filterMap_cons, List.filterMap_nil, hexpr]
  rfl

set_option maxRecDepth 4000 in
theorem quotient_size (vars : Bindings) (r : Routine) (h : Routine.generate quotient (seedsFor quotient vars) = .ok r) :
    r.size < 2 ^ 31 := by
  obtain ⟨r', hr', hsize⟩ := (Option.any_eq_true _ _).mp
    (by decide : (Routine.made? quotient ["y"] 40).any (fun r => r.size < 2 ^ 31) = true)
  have hseeds : seedsFor quotient vars = if (vars.get? "y").isSome then ["y"] else [] := by
    simp [seedsFor, quotient, Names.sorted, Names.withoutRepeats, List.filter_cons]
  rw [hseeds] at h
  split_ifs at h
  · rw [Routine.generate_of_made hr'] at h
    obtain rfl := Except.ok.inj h
    exact of_decide_eq_true hsize
  · cases h

/-! ### Transparency -/

/-- Adaptive execution cannot be told from evaluation: an engine of any configuration answers all requests as the
plain machine does, and has the same variables in the end. -/
theorem serve_transparent (fs : List PureFunction) {config : Config} (hconfig : config.check = .ok ()) (vars : Bindings)
    (requests : List Request)
    (hshape : ∀ e ∈ submitted requests, ∀ f ∈ submitted requests, e.fingerprint = f.fingerprint → e.shape = f.shape)
    (hsize : ∀ e ∈ submitted requests, ∀ vars r, Routine.generate e (seedsFor e vars) = .ok r → r.size < 2 ^ 31) :
    ∃ s, Engine.new config vars = .ok s ∧
      (serve (answer fs) s requests).1 = (serve (Plain.answer fs) vars requests).1 ∧
      (serve (answer fs) s requests).2.env = (serve (Plain.answer fs) vars requests).2 := by
  obtain ⟨s, hs⟩ : ∃ s, Engine.new config vars = .ok s := ⟨_, by rw [Engine.new, hconfig]⟩
  obtain ⟨hsound, henv⟩ := new_sound (P := (· ∈ submitted requests)) hs
  refine ⟨s, hs, ?_⟩
  have hP : Separated (· ∈ submitted requests) :=
    ⟨fun e f he hf => hshape e he f hf, fun e vars r he => hsize e he vars r⟩
  rw [← henv]
  exact serve_plain hP hsound fs requests fun _ he => he

theorem quotient_transparent :
    Config.check { hotThreshold := 1 } = .ok () ∧
      ∃ s, Engine.new { hotThreshold := 1 } = .ok s ∧
        (serve (answer PureFunction.defaults) s quotientRequests).1 =
          [.done (.ok ()), .executed (.ok (3, .ofList [("y", 2)])), .done (.ok ()),
           .executed (.error (.failed (.divisionByZero "/" (.ofPosition (column 1))))),
           .environment (.ok (.ofList [("y", 0)])), .done (.ok ()),
           .executed (.error (.failed (.undefinedVariable "y" (.ofPosition (column 2)) [])))] := by
  have hconfig : Config.check { hotThreshold := 1 } = .ok () := by decide
  obtain ⟨s, hs, hanswers, -⟩ := serve_transparent PureFunction.defaults hconfig {} quotientRequests
    (by simp [submitted_quotient]) (by simpa [submitted_quotient] using quotient_size)
  refine ⟨hconfig, s, hs, hanswers.trans ?_⟩
  simp only [quotientRequests, serve, Plain.answer, parse_quotient]
  rfl

end Engine

end TierCalc
