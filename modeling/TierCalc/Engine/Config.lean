import TierCalc.Text.Duration
import TierCalc.Text.Numeral
import TierCalc.Text.Quoted

/-!
# Configuration of an engine

From which submission on an expression is compiled, how many expressions the profile tracks, how long a request waits
for the engine, and how compiled expressions are executed.
-/

namespace TierCalc

/-- How compiled expressions are executed: by their machine code, or by evaluation in its place. Numbers without a
mode are kept so that they can be told. -/
inductive Mode where
  | native
  | simulate
  | unknown (number : UInt8)
deriving DecidableEq, Repr, Inhabited

namespace Mode

def ofNumber (n : UInt8) : Mode := if n = 0 then native else if n = 1 then simulate else unknown n

def text : Mode → String
  | native => "native"
  | simulate => "simulate"
  | unknown n => "mode(" ++ toString n.toNat ++ ")"

def parse? (s : String) : Option Mode :=
  if s == "native" then some native else if s == "simulate" then some simulate else none

/-- What is said about a text that names no mode. -/
def unknownText (s : String) : String := "unknown mode " ++ Quoted.text s ++ " (want native or simulate)"

end Mode

structure Config where
  hotThreshold : UInt64 := 10
  maxEntries : Int := 1024
  lockTimeout : Duration := 250000000
  mode : Mode := .native
deriving DecidableEq, Repr, Inhabited

/-- What can be wrong with a configuration. -/
inductive ConfigError where
  | hotThreshold
  | maxEntries
  | lockTimeout
  | mode (m : Mode)
deriving DecidableEq, Repr

def ConfigError.message : ConfigError → String
  | hotThreshold => "hot threshold must be at least 1"
  | maxEntries => "max entries must be at least 1"
  | lockTimeout => "lock timeout must be positive"
  | mode m => "invalid mode " ++ m.text

/-- The first reason for which a configuration cannot be used. -/
def Config.check (c : Config) : Except ConfigError Unit :=
  if c.hotThreshold < 1 then .error .hotThreshold
  else if c.maxEntries < 1 then .error .maxEntries
  else if c.lockTimeout ≤ 0 then .error .lockTimeout
  else
    match c.mode with
    | .unknown n => .error (.mode (.unknown n))
    | _ => .ok ()

/-- Whether machine code can be executed: the machine of this library is always there. -/
def nativeSupported : Bool := true

/-- The configuration that an engine runs with. Without a machine for its code, it simulates. -/
def Config.effective (c : Config) (supported : Bool := nativeSupported) : Config :=
  if !supported && c.mode == .native then { c with mode := .simulate } else c

@[simp] theorem Config.effective_native (c : Config) : c.effective = c := rfl

end TierCalc
