import TierCalc.Console.Lines
import TierCalc.Engine.Requests
import TierCalc.Service.View
import TierCalc.Table
import TierCalc.Text.Blank
import TierCalc.Text.Percent

/-!
# Interactive sessions

A line of a session is an expression, which is executed, or a command after a colon. A session answers each line with
an output, and tells whether it ends with it. Lines are bytes, since a line that comes in pieces may be cut within a
character.
-/

namespace TierCalc.Session

def help : String :=
  "Enter an expression to evaluate it. Commands:\n" ++
  "  :stats          show execution statistics\n" ++
  "  :cache          list cache entries\n" ++
  "  :env            show variables\n" ++
  "  :dis <fp>       disassemble the compiled code for a fingerprint\n" ++
  "  :reset          clear the cache, statistics and variables\n" ++
  "  :help           show this message\n" ++
  "  :quit           exit"

/-- A line of output. -/
def line (s : String) : String := s ++ "\n"

/-- The text of an answer of the engine, or of its error. -/
def reply {α : Type} (view : α → String) : Except EngineError α × Engine → String × Engine
  | (.ok a, s) => (view a, s)
  | (.error e, s) => (line e.message, s)

def executionText (x : Execution) : String :=
  line (toString x.value.toInt ++ if x.compiled then " [jit]" else "")

def statsText (c : Counters) : String :=
  let count (n : UInt64) : String := toString n.toNat
  Table.render {
    align := [.left, .right]
    rows := [
      ["total executions", count c.total],
      ["compiled executions", count c.compiled],
      ["interpreted executions", count c.interpreted],
      ["failed executions", count c.failed],
      ["compilations", count c.compilations],
      ["compile failures", count c.compileFailures],
      ["evictions", count c.evictions],
      ["cache entries", toString c.entries],
      ["busy rejections", count c.busy],
      ["avg execution time", c.averageExecutionTime.text],
      ["avg compilation time", c.averageCompilationTime.text],
      ["compiled ratio", Percent.text c.compiledRatio]] }

/-- An entry of the profile as a row. -/
def entryRow (e : Entry Artifact) : List String :=
  let size := Service.codeSize e
  [e.fingerprint.text, toString e.count.toNat, e.stage.name, if size = 0 then "" else toString size, e.expr]

def cacheText (entries : List (Entry Artifact)) : String :=
  if entries.isEmpty then line "cache is empty"
  else
    Table.render {
      header := ["FINGERPRINT", "COUNT", "STATE", "BYTES", "EXPRESSION"]
      align := [.left, .right, .left, .right, .left]
      rows := entries.map entryRow }

/-- The listing of compiled code, with its bytes. -/
def codeText (r : Routine) : String :=
  match Routine.Listing.rows r.code r.layout with
  | .ok rows => line (Routine.Listing.render rows) ++ line (Routine.Listing.dump r.code)
  | .error e => line e.message

/-- Shows the code of a fingerprint. -/
def showCode (arg : Bytes) (s : Engine) : String × Engine :=
  if arg.isEmpty then (line "usage: :dis <fingerprint>", s)
  else
    match arg.toString?.bind Fingerprint.parse? with
    | none => (line (Fingerprint.invalidBytes arg), s)
    | some fp => reply codeText (s.routine fp)

/-- The byte that stands before a command. -/
def colon : UInt8 := 58

/-- The byte that ends the name of a command. -/
def blank : UInt8 := 32

/-- The name of a command and the text after it. -/
def split (b : Bytes) : Bytes × Bytes := (b.takeWhile (· != blank), Text.trimBytes (b.dropWhile (· != blank)))

/-- What is said about a name that is no command. -/
def unknown (name : Bytes) : Bytes :=
  Bytes.ofString "unknown command :" ++ name ++ Bytes.ofString (line " (try :help)")

/-- Answers a command. -/
def command (name arg : Bytes) (s : Engine) : Bytes × Bool × Engine :=
  let stay : String × Engine → Bytes × Bool × Engine
    | (out, s) => (Bytes.ofString out, false, s)
  match name.toString? with
  | some "quit" | some "q" | some "exit" => ([], true, s)
  | some "help" | some "h" => stay (line help, s)
  | some "stats" => stay (reply statsText s.stats)
  | some "cache" => stay (reply cacheText s.ranking)
  | some "env" => stay (reply (fun b => line (Service.bindingsJson b).pretty) s.bindings)
  | some "dis" => stay (showCode arg s)
  | some "reset" => stay (reply (fun _ => line "reset") s.reset)
  | _ => (unknown name, false, s)

/-- Answers a line: the output, whether the session ends, and the engine afterwards. -/
def handle (fns : Builtins Engine) (input : Bytes) (s : Engine) (cancelled : Bool := false) :
    Bytes × Bool × Engine :=
  let input := Text.trimBytes input
  if input.head? = some colon then
    let (name, arg) := split input.tail
    command name arg s
  else
    let (out, s) := reply executionText (s.execute fns { bytes := input } cancelled)
    (Bytes.ofString out, false, s)

/-- Answers lines until the session ends. A session that is not ended by a command closes with an empty line. Blank
lines are passed over. -/
def run (fns : Builtins Engine) : List Bytes → Engine → Bytes
  | [], _ => [Lines.feed]
  | input :: rest, s =>
      if (Text.trimBytes input).isEmpty then run fns rest s
      else
        let (out, quit, s) := handle fns input s
        if quit then out else out ++ run fns rest s

end TierCalc.Session
