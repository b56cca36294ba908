import TierCalc.Engine.State
import TierCalc.Expr.Names

/-!
# Compiling a hot expression

When a submission promotes an expression, a routine is generated for it over the variables that it reads and that are
bound then; in native mode the routine is also prepared to run. The entry of the profile gets the artifact, or is set
aside for good.
-/

namespace TierCalc

/-- The reasons for which an expression has no artifact. -/
inductive CompileError where
  | generate (e : Routine.GenerateError)
  | prepare (e : X64.RegionError)
deriving DecidableEq, Repr

def CompileError.message : CompileError → String
  | generate e => e.message
  | prepare e => e.message

namespace Engine

/-- The names that an expression reads and that are bound, in increasing order. -/
def seedsFor (e : Expr) (vars : Bindings) : List String :=
  (Names.sorted e.reads).filter fun name => (vars.get? name).isSome

/-- Generates the code of an expression and prepares it as the mode asks. -/
def compile (s : Engine) (e : Expr) : Except CompileError Artifact × Engine :=
  match Routine.generate e (seedsFor e s.env) with
  | .error r => (.error (.generate r), s)
  | .ok routine =>
      match s.config.mode with
      | .native =>
          match s.arena.prepare routine.code routine.entry with
          | .error r => (.error (.prepare r), s)
          | .ok (h, arena) => (.ok ⟨routine, some h⟩, { s with arena := arena })
      | _ => (.ok ⟨routine, none⟩, s)

/-- Installs the outcome of a compilation in the entry that awaits it. If no entry does any more, or the engine was
closed in the meantime, the code is given back. -/
def install (s : Engine) (fp : Fingerprint) (outcome : Except CompileError Artifact) : Engine :=
  if s.closed then
    match outcome with
    | .error _ => s
    | .ok a => { s with arena := (a.release s.arena).2 }
  else
    match outcome with
    | .error r =>
        { s with cache := s.cache.markFailed fp, counters := s.counters.compileFailure 0 }.report
          (.compilationFailed fp r.message)
    | .ok a =>
        match s.cache.install fp a with
        | .error r =>
            let (failure?, arena) := a.release s.arena
            let s := { s with arena := arena }
            let s :=
              match failure? with
              | none => s
              | some f => s.report (.releaseFailed fp f.message)
            s.report (.discarded fp r.message)
        | .ok cache =>
            { s with cache := cache, counters := s.counters.compilation 0 }.report
              (.compiled fp a.size a.handle?.isSome 0)

/-- Compiles a promoted expression and installs the outcome. -/
def promote (s : Engine) (e : Expr) (count : UInt64) : Engine :=
  let (outcome, s) := (s.report (.hot e.fingerprint count)).compile e
  s.install e.fingerprint outcome

end Engine

end TierCalc
