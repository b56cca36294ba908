import TierCalc.Engine.Compile
import TierCalc.Expr.Parser

/-!
# Executing expressions

A submission is counted in the profile. A hot expression is compiled once; from then on its code runs, and the result
is the same as that of evaluation.

* Execution is all or nothing: assignments reach the variables only when the whole expression has a value.
* Compiled code runs only for the expression that it was generated from, and only when all its variables are bound.
  When it stops on a division by zero, the expression is evaluated instead, which tells the place of the error.
* Evaluation works on a snapshot of the variables, without the lock. If a name that the expression reads has changed
  in the meantime, it is evaluated once more, under the lock, on the variables as they are then.

Builtins act on the engine itself. Under the lock, what they ask of it is rejected.
-/

namespace TierCalc

/-- The result of an execution. -/
structure Execution where
  value : Int64
  environment : Bindings
  compiled : Bool
  fingerprint : Fingerprint
  count : UInt64
  executionTime : Duration := 0
  compilationTime? : Option Duration := none
deriving DecidableEq, Repr

/-- Whether a name that the expression reads has another value than in the snapshot. -/
def Expr.isStale (e : Expr) (snapshot current : Bindings) : Bool :=
  e.reads.any fun name => current.get? name != snapshot.get? name

namespace Engine

/-- Counts a submission in the profile. An entry that has to make room gives its code back. -/
def submit (s : Engine) (e : Expr) : UInt64 × Bool × Engine :=
  let (r, failure?, arena) := s.cache.submit Artifact.release e.fingerprint e.callFree e.render s.arena
  let s := { s with cache := r.cache, arena := arena }
  match r.evicted? with
  | none => (r.count, r.promote, s)
  | some old =>
      (r.count, r.promote,
        s.report (.evicted old.fingerprint old.count old.stage.name (failure?.map X64.RegionError.message)))

/-- Evaluates an expression on the variables while no request is let in. -/
def evaluateLocked (fns : Builtins Engine) (e : Expr) (s : Engine) : Run Overlay Engine Int64 :=
  let r := e.eval fns (Overlay.on s.env) { s with locked := true }
  { r with world := { r.world with locked := false } }

/-- Ends an execution: a value commits its assignments and is counted, an evaluation error is counted. -/
def conclude (compiled : Bool) (r : Run Overlay Engine Int64) : Except EngineError Int64 × Engine :=
  let s := r.world
  match r.result with
  | .ok v => (.ok v, { s with env := r.scope.commit s.env, counters := s.counters.execution 0 compiled false })
  | .error (.error e) => (.error (.failed e), { s with counters := s.counters.execution 0 compiled true })
  | .error (.invalidOperator n) => (.error (.invalidOperator n), s)

/-- The artifact that may run for an expression. -/
def artifactFor? (s : Engine) (e : Expr) : Option Artifact :=
  match s.cache.find? e.fingerprint with
  | some entry => if entry.expr == e.render then entry.artifact? else none
  | none => none

/-- Runs prepared code on the variables: the value and the variables afterwards, or none if a variable is not bound
or the code stops on a division by zero. -/
def runNative (s : Engine) (fp : Fingerprint) (routine : Routine) (h : X64.Handle) : Option Int64 × Engine :=
  let layout := routine.layout
  if layout.seedNames.all fun name => (s.env.get? name).isSome then
    let seeds (name : String) : Option Int64 := if layout.seedNames.contains name then s.env.get? name else none
    match s.arena.invoke h (Routine.Frame.load layout seeds) with
    | .error r => (none, s.report (.invokeFailed fp r.message))
    | .ok (value, frame) =>
        if Routine.Frame.status frame = 0 then
          (some value,
            { s with
              env := s.env.update (Bindings.ofList (Routine.Frame.assigned layout frame))
              counters := s.counters.execution 0 true false })
        else (none, s)
  else (none, s)

/-- Executes the compiled form of an expression. There is no answer if it has none that can be used. -/
def runCompiled (fns : Builtins Engine) (e : Expr) (s : Engine) : Option (Except EngineError Int64) × Engine :=
  match s.artifactFor? e with
  | none => (none, s)
  | some a =>
      match a.handle? with
      | none =>
          let (answer, s) := conclude true (evaluateLocked fns e s)
          (some answer, s)
      | some h =>
          match s.runNative e.fingerprint a.routine h with
          | (some v, s) => (some (.ok v), s)
          | (none, s) => (none, s)

/-- Evaluates an expression on a snapshot of the variables, and once more if they have changed. -/
def interpret (fns : Builtins Engine) (e : Expr) (s : Engine) : Except EngineError Int64 × Engine :=
  let r := e.eval fns (Overlay.on s.env) s
  match r.result with
  | .error (.invalidOperator n) => (.error (.invalidOperator n), r.world)
  | _ =>
      if r.world.closed then (.error .closed, r.world)
      else if e.isStale s.env r.world.env then
        conclude false (evaluateLocked fns e (r.world.report (.inputsChanged e.fingerprint)))
      else conclude false r

def executeExpr (fns : Builtins Engine) (e : Expr) (s : Engine) (cancelled : Bool := false) :
    Except EngineError Execution × Engine :=
  match s.enter cancelled with
  | (.error r, s) => (.error r, s)
  | (.ok (), s) =>
      let (count, promoted, s) := s.submit e
      let s := if promoted then s.promote e count else s
      let finish (compiled : Bool) : Except EngineError Int64 × Engine → Except EngineError Execution × Engine
        | (.error r, s) => (.error r, s)
        | (.ok v, s) =>
            (.ok ⟨v, s.env, compiled, e.fingerprint, count, 0, if promoted then some 0 else none⟩, s)
      match s.runCompiled fns e with
      | (some answer, s) => finish true (answer, s)
      | (none, s) => finish false (s.interpret fns e)

def execute (fns : Builtins Engine) (source : Source) (s : Engine) (cancelled : Bool := false) :
    Except EngineError Execution × Engine :=
  match Expr.parse source { cancelled := cancelled } with
  | .error r => (.error (.malformed r), s)
  | .ok e => s.executeExpr fns e cancelled

end Engine

end TierCalc
