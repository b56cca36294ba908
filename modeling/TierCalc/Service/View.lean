import TierCalc.Engine.Execute
import TierCalc.Json.Basic
import TierCalc.Routine.Listing

/-!
# What the service shows

The JSON forms of results, counters, profile entries and compiled code.
-/

namespace TierCalc.Service

def bindingsJson (b : Bindings) : Json := .obj (b.entries.map fun (name, v) => (name, .int v.toInt))

def durationJson (d : Duration) : Json := .int d.toInt

def countJson (n : UInt64) : Json := .int n.toNat

def executionJson (x : Execution) : Json :=
  .obj ([("value", .int x.value.toInt), ("environment", bindingsJson x.environment),
      ("execution_time_ns", durationJson x.executionTime)]
    ++ (x.compilationTime?.map fun d => ("compilation_time_ns", durationJson d)).toList
    ++ [("was_jit_compiled", .bool x.compiled), ("fingerprint", .str x.fingerprint.text),
      ("execution_count", countJson x.count)])

/-- The counters with their averages and the configuration. -/
def statsJson (c : Counters) (config : Config) : Json :=
  .obj [("total_executions", countJson c.total), ("compiled_executions", countJson c.compiled),
    ("interpreted_executions", countJson c.interpreted), ("failed_executions", countJson c.failed),
    ("total_compilations", countJson c.compilations), ("compile_failures", countJson c.compileFailures),
    ("evictions", countJson c.evictions), ("busy_rejections", countJson c.busy), ("cache_entries", .int c.entries),
    ("total_execution_time_ns", durationJson c.executionTime),
    ("total_compilation_time_ns", durationJson c.compilationTime),
    ("average_execution_time_ns", durationJson c.averageExecutionTime),
    ("average_compilation_time_ns", durationJson c.averageCompilationTime),
    ("compiled_ratio", .float c.compiledRatio), ("hot_threshold", countJson config.hotThreshold),
    ("max_entries", .int config.maxEntries), ("mode", .str config.mode.text)]

/-- The number of bytes of an entry's code. -/
def codeSize (e : Entry Artifact) : Nat := (e.artifact?.map Artifact.size).getD 0

def entryJson (e : Entry Artifact) : Json :=
  .obj ([("fingerprint", .str e.fingerprint.text), ("execution_count", countJson e.count),
      ("is_compiled", .bool e.artifact?.isSome), ("state", .str e.stage.name)]
    ++ (if codeSize e = 0 then [] else [("code_size", .int (codeSize e))])
    ++ (if e.expr == "" then [] else [("expr", .str e.expr)]))

def rowJson (r : Routine.Listing.Row) : Json :=
  .obj ([("offset", .int r.offset), ("bytes", .str (Routine.Listing.bytesText r.bytes)), ("text", .str r.text)]
    ++ if r.note == "" then [] else [("annotation", .str r.note)])

def codeJson (fp : Fingerprint) (routine : Routine) (rows : List Routine.Listing.Row) : Json :=
  .obj [("fingerprint", .str fp.text), ("size", .int routine.size),
    ("variables", if routine.layout.names.isEmpty then .null else .arr (routine.layout.names.map .str)),
    ("hex", .str (Routine.Listing.dump routine.code)), ("listing", .arr (rows.map rowJson))]

end TierCalc.Service
