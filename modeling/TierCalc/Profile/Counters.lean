import TierCalc.Text.Duration

/-!
# Counters

What an engine counts about its executions, and the averages derived from that. Counts are 64-bit words; times are
durations in nanoseconds.
-/

namespace TierCalc

/-- The counters of an engine. -/
structure Counters where
  total : UInt64 := 0
  compiled : UInt64 := 0
  interpreted : UInt64 := 0
  failed : UInt64 := 0
  compilations : UInt64 := 0
  compileFailures : UInt64 := 0
  evictions : UInt64 := 0
  busy : UInt64 := 0
  entries : Nat := 0
  executionTime : Duration := 0
  compilationTime : Duration := 0
deriving DecidableEq, Repr, Inhabited

namespace Counters

/-- Counts an execution, whether it ran compiled code and whether it failed. -/
def execution (c : Counters) (d : Duration) (compiled failed : Bool) : Counters :=
  { c with
    total := c.total + 1
    executionTime := c.executionTime + d
    compiled := if compiled then c.compiled + 1 else c.compiled
    interpreted := if compiled then c.interpreted else c.interpreted + 1
    failed := if failed then c.failed + 1 else c.failed }

/-- Counts a compilation whose code was installed. -/
def compilation (c : Counters) (d : Duration) : Counters :=
  { c with compilations := c.compilations + 1, compilationTime := c.compilationTime + d }

/-- Counts a compilation that was given up. -/
def compileFailure (c : Counters) (d : Duration) : Counters :=
  { c with compileFailures := c.compileFailures + 1, compilationTime := c.compilationTime + d }

/-- The mean of a total time, rounded toward zero, or zero where nothing was counted. -/
def mean (time : Duration) (count : UInt64) : Duration := if count = 0 then 0 else time / count.toInt64

def averageExecutionTime (c : Counters) : Duration := mean c.executionTime c.total

/-- The mean time of a compilation, installed or given up. -/
def averageCompilationTime (c : Counters) : Duration := mean c.compilationTime (c.compilations + c.compileFailures)

/-- The share of executions that ran compiled code. -/
def compiledRatio (c : Counters) : Float := if c.total = 0 then 0 else c.compiled.toFloat / c.total.toFloat

end Counters

end TierCalc
