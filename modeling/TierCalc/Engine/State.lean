import TierCalc.Engine.Config
import TierCalc.Engine.Event
import TierCalc.Eval.Evaluate
import TierCalc.Expr.SyntaxError
import TierCalc.Profile.Cache
import TierCalc.Profile.Counters
import TierCalc.Routine.Generate
import TierCalc.X64.Arena

/-!
# The state of an engine

An engine holds variables, the profile of the expressions submitted to it, the code compiled for them, and counters.

* Requests are admitted one at a time. While `locked`, a request is rejected after the configured wait; once closed,
  an engine rejects all.
* `clearCache` gives all compiled code back to the arena, `report` adds to the log.
-/

namespace TierCalc

/-- Compiled code for an expression. Only in native mode is it prepared to run. -/
structure Artifact where
  routine : Routine
  handle? : Option X64.Handle := none
deriving DecidableEq, Repr

def Artifact.size (a : Artifact) : Nat := a.routine.size

/-- Gives the code of an artifact back to its arena. The reason is told where that fails. -/
def Artifact.release (a : Artifact) (arena : X64.Arena) : Option X64.RegionError × X64.Arena :=
  match a.handle? with
  | none => (none, arena)
  | some h =>
      match arena.release h with
      | .ok arena => (none, arena)
      | .error e => (some e, arena)

/-- The state of an engine. -/
structure Engine where
  config : Config
  cache : Cache Artifact
  env : Bindings := {}
  counters : Counters := {}
  arena : X64.Arena := {}
  busy : UInt64 := 0
  closed : Bool := false
  locked : Bool := false
  log : Array Event := #[]
deriving DecidableEq, Repr

/-- The reasons for which an engine gives no answer. -/
inductive EngineError where
  | malformed (e : SyntaxError)
  | failed (e : EvalError)
  | invalidOperator (number : UInt8)
  | closed
  | cancelled
  | notCompiled (fp : Fingerprint)
  | releases (failures : List String)

namespace EngineError

def message : EngineError → String
  | malformed e => e.message
  | failed e => e.message
  | invalidOperator n => Fault.invalidOperatorText n
  | closed => "jit: engine is closed"
  | cancelled => "context canceled"
  | notCompiled fp => "jit: no compiled code for fingerprint " ++ fp.text
  | releases failures => failuresText failures

/-- The error for a fault of evaluation. -/
def ofFault : Fault → EngineError
  | .error e => failed e
  | .invalidOperator n => invalidOperator n

def code? : EngineError → Option ErrorCode
  | malformed e => some e.fault.code
  | failed e => some e.cause.code
  | _ => none

end EngineError

namespace Engine

/-- An engine with variables and an empty profile. -/
def new (config : Config) (vars : Bindings := {}) : Except ConfigError Engine :=
  match config.check with
  | .ok () =>
      let config := config.effective
      .ok { config := config, cache := Cache.new config.hotThreshold config.maxEntries, env := vars }
  | .error e => .error e

/-- What is said when an engine cannot be made. -/
def refusalText (e : ConfigError) : String := "jit: " ++ e.message

/-- Adds an event to the log. -/
def report (s : Engine) (e : Event) : Engine := { s with log := s.log.push e }

/-- Lets a request in, unless the engine is busy or closed. A caller that gave up is not kept waiting. -/
def enter (s : Engine) (cancelled : Bool := false) : Except EngineError Unit × Engine :=
  if s.locked then
    if cancelled then (.error .cancelled, s)
    else
      (.error (.failed { cause := .busy s.config.lockTimeout }),
        { s with busy := s.busy + 1 }.report (.rejectedBusy s.config.lockTimeout))
  else if s.closed then (.error .closed, s)
  else (.ok (), s)

/-- Gives all entries of the profile up, with their code. -/
def clearCache (s : Engine) : Except EngineError Unit × Engine :=
  let (failures, cache, arena) := s.cache.discard Artifact.release s.arena
  let texts := failures.map fun (fp, reason) => releaseFailureText fp reason.message
  (if texts.isEmpty then .ok () else .error (.releases texts), { s with cache := cache, arena := arena })

end Engine

end TierCalc
