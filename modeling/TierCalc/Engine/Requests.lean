import TierCalc.Engine.State

/-!
# Requests to an engine

What can be asked of an engine apart from executing expressions. All but `close` wait for admission.
-/

namespace TierCalc.Engine

/-- Answers from the state if the request is let in. -/
def query {α : Type} (s : Engine) (answer : Engine → Except EngineError α) : Except EngineError α × Engine :=
  match s.enter with
  | (.error r, s) => (.error r, s)
  | (.ok (), s) => (answer s, s)

/-- The counters, with those that other parts of the engine keep. -/
def stats (s : Engine) : Except EngineError Counters × Engine :=
  s.query fun s =>
    .ok { s.counters with evictions := s.cache.evictions, busy := s.busy, entries := s.cache.size }

/-- The entries of the profile, the most executed first. -/
def ranking (s : Engine) : Except EngineError (List (Entry Artifact)) × Engine := s.query fun s => .ok s.cache.ranking

/-- The code compiled for a fingerprint. -/
def routine (s : Engine) (fp : Fingerprint) : Except EngineError Routine × Engine :=
  s.query fun s =>
    match (s.cache.find? fp).bind Entry.artifact? with
    | some a => .ok a.routine
    | none => .error (.notCompiled fp)

def bindings (s : Engine) : Except EngineError Bindings × Engine := s.query fun s => .ok s.env

def setVariable (s : Engine) (name : String) (value : Int64) : Except EngineError Unit × Engine :=
  match s.enter with
  | (.error r, s) => (.error r, s)
  | (.ok (), s) => (.ok (), { s with env := s.env.set name value })

/-- Forgets the profile with all compiled code, the counters and the variables. -/
def reset (s : Engine) : Except EngineError Unit × Engine :=
  match s.enter with
  | (.error r, s) => (.error r, s)
  | (.ok (), s) =>
      let (answer, s) := s.clearCache
      (answer, { s with counters := {}, busy := 0, env := .empty }.report .reset)

/-- Gives all compiled code back; the engine answers no more requests. Closing again changes nothing. -/
def close (s : Engine) : Except EngineError Unit × Engine :=
  if s.closed then (.ok (), s)
  else ({ s with closed := true }.report (.closing s.cache.size)).clearCache

end TierCalc.Engine
