import TierCalc.Console.Address
import TierCalc.Console.Completion
import TierCalc.Console.Help
import TierCalc.Console.Session
import TierCalc.Console.Settings
import TierCalc.Reference
import TierCalc.Text.YamlScalar

/-!
# Runs of the program

What the commands do, what they write, and why they fail.
-/

namespace TierCalc

/-- How the program is started. -/
structure Invocation where
  args : List String
  input : String := ""
  environment : List (String × String) := []
  cancelled : Bool := false

/-- The reasons for which a command fails. -/
inductive CommandError where
  | arguments (e : FlagError)
  | unknownCommand (name path : String) (similar : List String)
  | tooManyWords (limit given : Nat)
  | tooFewWords (limit given : Nat)
  | settings (p : Settings.Problem)
  | manySources
  | noSource
  | repeatCount
  | outputFormat (name : String)
  | containsCall (expr : String)
  | generate (e : Routine.GenerateError)
  | listing (e : Routine.ListingError)
  | address (p : Address.Problem)
  | engine (e : EngineError)

namespace CommandError

/-- The commands that may have been meant. -/
def suggestions (similar : List String) : String :=
  if similar.isEmpty then ""
  else "\n\nDid you mean this?\n" ++ String.join (similar.map fun s => "\t" ++ s ++ "\n")

def message : CommandError → String
  | arguments e => e.message
  | unknownCommand name path similar =>
      "unknown command " ++ Quoted.text name ++ " for " ++ Quoted.text path ++ suggestions similar
  | tooManyWords limit given =>
      "accepts at most " ++ toString limit ++ " arg(s), received " ++ toString given
  | tooFewWords limit given =>
      "requires at least " ++ toString limit ++ " arg(s), only received " ++ toString given
  | settings p => p.message
  | manySources => "multiple input sources specified"
  | noSource => "no expression provided"
  | repeatCount => "repeat must be at least 1"
  | outputFormat name => "unknown output format: " ++ name
  | containsCall expr => expr ++ ": " ++ Routine.GenerateError.message .containsCall
  | generate e => e.message
  | listing e => e.message
  | address p => p.message
  | engine e => e.message

end CommandError

/-- What a command wrote, and why it failed if it did. -/
structure Outcome where
  output : Bytes := []
  failure? : Option CommandError := none

namespace Command

/-- The outcome of a command that may fail before it writes. -/
def outcome : Except CommandError Bytes → Outcome
  | .ok out => { output := out }
  | .error e => { failure? := some e }

/-- The one source of the expression: the flag, the standard input or the word. -/
def source (i : Invocation) (a : Arguments) : Except CommandError String :=
  let given := [a.has "code", a.has "stdin", !a.words.isEmpty].count true
  if 1 < given then .error .manySources
  else if a.has "stdin" then .ok i.input
  else
    match a.words, a.value? "code" with
    | w :: _, _ => .ok w
    | [], some code => .ok code
    | [], none => .error .noSource

/-- An engine with the settings. -/
def engine (s : Settings) : Except CommandError Engine :=
  match s.config with
  | .error p => .error (.settings p)
  | .ok c =>
      match Engine.new c with
      | .ok e => .ok e
      | .error r => .error (.settings (.config r))

/-- The functions that expressions on the command line may call. -/
def functions : Builtins Engine := .withDefaults []

/-- Executes a text a number of times; the last result counts. -/
def repeatExecution (text : Bytes) (cancelled : Bool) : Nat → Engine → Except EngineError Execution
  | 0, s => (s.execute functions { bytes := text } cancelled).1
  | n + 1, s =>
      match s.execute functions { bytes := text } cancelled with
      | (.ok _, s) => repeatExecution text cancelled n s
      | (.error e, _) => .error e

def eval (i : Invocation) (a : Arguments) (s : Settings) : Except CommandError String := do
  let code ← source i a
  let count :=
    match a.value? "repeat" with
    | some v => (IntegerLiteral.signed v).toOption.getD 1
    | none => 1
  if count < 1 then throw .repeatCount
  let e ← engine s
  match repeatExecution (Bytes.ofString code) i.cancelled (count.toNat - 1) e with
  | .error r => throw (.engine r)
  | .ok x =>
      let format := (a.value? "output").getD ""
      match Text.lower format with
      | "json" => return (Service.executionJson x).pretty ++ "\n"
      | "" | "text" => return toString x.value.toInt ++ "\n"
      | _ => throw (.outputFormat format)

/-- The names that records of comma-separated values give. -/
def namesOf (values : List String) : List String :=
  let names := (values.flatMap fun v => (Csv.record v).toOption.getD []).map Text.trim
  (names.filter (· != "")).mergeSort (· ≤ ·)

/-- Shows the code of an expression. -/
def dis (i : Invocation) (a : Arguments) : Except CommandError String := do
  let code ← source i a
  match Expr.parse { bytes := Bytes.ofString code } { cancelled := i.cancelled } with
  | .error e => throw (.engine (.malformed e))
  | .ok e =>
      if !e.callFree then throw (.containsCall e.render)
      match Routine.generate e (namesOf (a.valuesOf "var")) with
      | .error r => throw (.generate r)
      | .ok r =>
          match Routine.Listing.rows r.code r.layout with
          | .error err => throw (.listing err)
          | .ok rows =>
              return e.render ++ "\n\n" ++ Routine.Listing.render rows
                ++ (if a.isTrue "hex" then "\n" ++ Routine.Listing.dump r.code ++ "\n" else "")

/-- Checks that the service can be started. One that is stopped at once does not come to listen. -/
def serve (i : Invocation) (s : Settings) : Except CommandError String := do
  let _ ← engine s
  if i.cancelled then return ""
  match Address.problem? s.address with
  | some p => throw (.address p)
  | none => return ""

def version : String := "dev"

/-- The first line of a session. -/
def banner (c : Config) : String :=
  "hotpath " ++ version ++ " (threshold " ++ toString c.hotThreshold.toNat ++ ", mode " ++ c.mode.text
    ++ "). Type :help for commands.\n"

/-- Runs a session on the standard input. -/
def repl (i : Invocation) (s : Settings) : Except CommandError Bytes := do
  let e ← engine s
  let lines := Lines.split (Bytes.ofString i.input)
  return Bytes.ofString (banner e.config) ++ if i.cancelled then [] else Session.run functions lines e

/-- Prints the settings in force. -/
def showConfig (s : Settings) : Except CommandError String :=
  match s.config with
  | .error p => .error (.settings p)
  | .ok c =>
      .ok ("engine:\n"
        ++ "  hot_threshold: " ++ toString c.hotThreshold.toNat ++ "\n"
        ++ "  max_entries: " ++ toString c.maxEntries ++ "\n"
        ++ YamlScalar.entry "  lock_timeout" c.lockTimeout.text
        ++ YamlScalar.entry "  mode" c.mode.text
        ++ YamlScalar.entry "log_level" s.logLevel
        ++ YamlScalar.entry "addr" s.address)

/-- A page that fits the language on one screen. -/
def quickReference : String :=
  "hotpath " ++ Reference.version ++ "\n\n" ++
  "Syntax\n" ++
  "  x = 10                 assignment\n" ++
  "  x * 3 + 7              arithmetic: + - * / %\n" ++
  "  x >= 3                 comparison: == != < > <= >=\n" ++
  "  if(x > 0, x, -x)       conditional\n" ++
  "  fib(n) fact(n) pow(b, e)\n\n" ++
  "Run 'hotpath doc <topic>' for details on a category, function, operator or error code.\n"

/-- Whether the output is asked for as JSON. -/
def wantsJson (a : Arguments) : Bool := Text.lower ((a.value? "output").getD "") == "json"

/-- Shows the reference. -/
def doc (a : Arguments) : String :=
  match a.words with
  | [] => if wantsJson a then Reference.whole.pretty ++ "\n" else quickReference
  | w :: _ => (if Reference.isCategory w then Reference.category w else Reference.lookup "" w).pretty ++ "\n"

def showVersion (a : Arguments) : String :=
  if wantsJson a then
    (Json.obj
      [("arch", .str "linux/amd64"), ("commit", .str "unknown"), ("date", .str "unknown"),
       ("native", .bool true), ("version", .str version)]).pretty ++ "\n"
  else "hotpath " ++ version ++ " (commit unknown, built unknown, linux/amd64, native=true)\n"

/-- The variables of the environment that tell whether completions are explained. The first that is not empty counts. -/
def describingVariables : List String := ["HOTPATH_COMPLETION_DESCRIPTIONS", "COBRA_COMPLETION_DESCRIPTIONS"]

/-- Whether explanations are asked for: by the word that names the command, unless the environment forbids them. -/
def describes (i : Invocation) : Bool :=
  match Arguments.firstWord? globalFlags i.args with
  | some (word, _) =>
      let values := describingVariables.filterMap fun name => i.environment.lookup name
      word != bareRequest && ((values.find? (· != "")).bind boolValue?).getD true
  | none => true

/-- Does what a command is for. -/
def perform (c : Command) (i : Invocation) (a : Arguments) (s : Settings) : Except CommandError Bytes :=
  match c.path with
  | ["eval"] => (eval i a s).map Bytes.ofString
  | ["dis"] => (dis i a).map Bytes.ofString
  | ["serve"] => (serve i s).map Bytes.ofString
  | ["repl"] => repl i s
  | ["config"] => (showConfig s).map Bytes.ofString
  | ["doc"] => .ok (Bytes.ofString (doc a))
  | ["version"] => .ok (Bytes.ofString (showVersion a))
  | ["help"] => .ok (Bytes.ofString (helpFor a.words))
  | ["completion", shell] => .ok (Bytes.ofString (Completion.script shell (!a.isTrue bareFlag.name)))
  | _ => .ok (Bytes.ofString ((Completion.ofCommandLine a.words).text (describes i)))

/-- The fault of a number of words. -/
def wordsFault? (c : Command) (words : List String) : Option CommandError :=
  match c.words, words with
  | .none, w :: _ => some (.unknownCommand w c.call [])
  | .atMost n, ws => if n < ws.length then some (.tooManyWords n ws.length) else none
  | .atLeast n, ws => if ws.length < n then some (.tooFewWords n ws.length) else none
  | _, _ => none

/-- The arguments of a command as they are read: those of a hidden command are all words. -/
def read (c : Command) (args : List String) : Except FlagError Arguments :=
  if c.hidden then .ok { words := args } else Arguments.parse (c.ownFlags ++ c.inherited ++ [c.helpFlag]) args

/-- Runs a command on its arguments: these are read first, then the number of words is checked, then the settings. -/
def start (c : Command) (i : Invocation) (args : List String) : Except CommandError Bytes := do
  match c.read args with
  | .error e => throw (.arguments e)
  | .ok a =>
      if a.isTrue "help" || !c.runs then return Bytes.ofString c.help
      if let some e := c.wordsFault? a.words then throw e
      let s : Settings := ⟨a, i.environment⟩
      match s.check with
      | .error p => throw (.settings p)
      | .ok () => c.perform i a s

/-- Whether arguments ask for a command that reads the standard input. -/
def readsInput (args : List String) : Bool :=
  let (c, rest) := locate args
  c.path == ["repl"] || rest.any (·.startsWith "--stdin")

/-- Runs the program. -/
def run (i : Invocation) : Outcome :=
  match strayWord? i.args with
  | some word => { failure? := some (.unknownCommand word root.call (similar word)) }
  | none =>
      let (c, args) := locate i.args
      outcome (c.start i args)

end Command

end TierCalc
