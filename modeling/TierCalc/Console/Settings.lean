import TierCalc.Console.Flag
import TierCalc.Console.Path
import TierCalc.Engine.Config

/-!
# Settings

A setting comes from its flag, or else from the environment, or else is the usual one. The variable of the environment
is named after the flag, in capitals and with underscores; an empty one counts as missing.
-/

namespace TierCalc

/-- Where settings come from. -/
structure Settings where
  arguments : Arguments := {}
  environment : List (String × String) := []

namespace Settings

/-- The variable of the environment for a flag. -/
def variableName (flag : String) : String :=
  "HOTPATH_" ++ String.ofList (flag.toList.map fun c => if c == '-' then '_' else c.toUpper)

/-- The text of a setting in the environment. -/
def ofEnvironment? (s : Settings) (flag : String) : Option String :=
  (s.environment.lookup (variableName flag)).filter (· != "")

def text (s : Settings) (flag : String) (initial : String := "") : String :=
  ((s.arguments.value? flag).or (s.ofEnvironment? flag)).getD initial

/-- What is left of a reversed text without the zeros at its end and the points among them, up to a point that zeros
follow. -/
def beforeZeros? : Bool → List Char → Option (List Char)
  | zeros, '.' :: rest => if zeros then some rest else beforeZeros? zeros rest
  | _, '0' :: rest => beforeZeros? true rest
  | _, _ => none

/-- A number of the environment without a fraction of zeros. -/
def withoutZeros (s : String) : String :=
  match beforeZeros? false s.toList.reverse with
  | some rest => String.ofList rest.reverse
  | none => s

/-- The text of a setting that is a number. -/
def number? (s : Settings) (flag : String) : Option String :=
  (s.arguments.value? flag).or ((s.ofEnvironment? flag).map withoutZeros)

/-- The signed 64-bit word of a setting, or zero if it is missing or no such word. -/
def integer (s : Settings) (flag : String) : Int :=
  ((s.number? flag).bind fun v => (IntegerLiteral.signed v).toOption).getD 0

/-- The unsigned 64-bit word of a setting, or zero if it is missing or no such word. -/
def natural (s : Settings) (flag : String) : Nat :=
  ((s.number? flag).bind fun v => (IntegerLiteral.unsigned v).toOption).getD 0

/-- The duration of a setting, or zero if it is missing or none. A number without a unit counts nanoseconds. -/
def duration (s : Settings) (flag : String) : Duration :=
  match (s.arguments.value? flag).or (s.ofEnvironment? flag) with
  | none => 0
  | some v =>
      let v := if v.toList.any "nsuµmh".toList.contains then v else v ++ "ns"
      match Duration.parse v with
      | .ok d => d
      | .error _ => 0

/-- What can be wrong with settings. -/
inductive Problem where
  | unknownMode (s : String)
  | config (e : ConfigError)
  | logLevel (s : String)
  | configType (name : String)
  | configFile (path : String)
deriving DecidableEq, Repr

def Problem.message : Problem → String
  | unknownMode s => Mode.unknownText s
  | config e => e.message
  | logLevel s => "invalid log level " ++ Quoted.text s
  | configType name => "Unsupported Config Type " ++ Quoted.text name
  | configFile path => "open " ++ path ++ ": " ++ (Path.problem path).message

/-- The configuration of an engine. Zeros leave the usual values. -/
def config (s : Settings) : Except Problem Config :=
  let usual : Config := {}
  let threshold := s.natural "hot-threshold"
  let entries := s.integer "max-entries"
  let timeout := s.duration "lock-timeout"
  let base : Config :=
    { usual with
      hotThreshold := if threshold = 0 then usual.hotThreshold else threshold.toUInt64
      maxEntries := if entries = 0 then usual.maxEntries else entries
      lockTimeout := if timeout = 0 then usual.lockTimeout else timeout }
  let checked (c : Config) : Except Problem Config :=
    match c.check with
    | .ok () => .ok c
    | .error e => .error (.config e)
  match s.text "mode" with
  | "" => checked base
  | m =>
      match Mode.parse? m with
      | none => .error (.unknownMode m)
      | some mode => checked { base with mode := mode }

/-- The level from which on events are written. -/
def logLevel (s : Settings) : String := s.text "log-level" "warn"

/-- Whether a text is a level: a name, nothing, or a signed byte. -/
def isLevel (s : String) : Bool :=
  ["trace", "debug", "info", "warn", "error", "fatal", "panic", "disabled", ""].contains s ||
    match s.toList with
    | '-' :: ds => (Numeral.nat? 10 (String.ofList ds)).any (· ≤ 128)
    | '+' :: ds => (Numeral.nat? 10 (String.ofList ds)).any (· ≤ 127)
    | _ => (Numeral.nat? 10 s).any (· ≤ 127)

/-- The types that files of settings may have. -/
def configTypes : List String :=
  ["json", "toml", "yaml", "yml", "properties", "props", "prop", "hcl", "tfvars", "dotenv", "env", "ini"]

/-- The type of a file: what follows the last point of its name, or nothing. -/
def configType (path : String) : String :=
  let name := (path.toList.reverse.takeWhile (· != '/')).reverse
  if name.contains '.' then String.ofList (name.reverse.takeWhile (· != '.')).reverse else ""

/-- Checks the settings that concern all commands. There is no file of settings, so naming one is an error; its type is
looked at first. -/
def check (s : Settings) : Except Problem Unit :=
  let path := s.text "config"
  if path != "" then
    if configTypes.contains (configType path) then .error (.configFile path) else .error (.configType (configType path))
  else if isLevel s.logLevel then .ok ()
  else .error (.logLevel s.logLevel)

/-- The address to listen on. -/
def address (s : Settings) : String := s.text "addr" ":8080"

end Settings

end TierCalc
