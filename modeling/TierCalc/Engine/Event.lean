import TierCalc.Profile.Fingerprint
import TierCalc.Text.Duration

/-!
# Events

What an engine and its service report while they work. An event has a level, a message, and named details.
-/

namespace TierCalc

/-- How much an event matters. -/
inductive Level where
  | debug
  | info
  | warn
  | error
deriving DecidableEq, Repr

def Level.text : Level → String
  | debug => "debug"
  | info => "info"
  | warn => "warn"
  | error => "error"

/-- A detail of an event. -/
inductive Detail where
  | text (s : String)
  | number (n : Nat)
  | flag (b : Bool)
  | time (d : Duration)
deriving DecidableEq, Repr

/-- The things that happen. -/
inductive Event where
  | evicted (fp : Fingerprint) (count : UInt64) (stage : String) (failure? : Option String)
  | hot (fp : Fingerprint) (count : UInt64)
  | compiled (fp : Fingerprint) (bytes : Nat) (native : Bool) (elapsed : Duration)
  | compilationFailed (fp : Fingerprint) (reason : String)
  | discarded (fp : Fingerprint) (reason : String)
  | releaseFailed (fp : Fingerprint) (reason : String)
  | invokeFailed (fp : Fingerprint) (reason : String)
  | inputsChanged (fp : Fingerprint)
  | rejectedBusy (timeout : Duration)
  | reset
  | closing (entries : Nat)
  | served (requestId method path : String) (status bytes : Nat)
  | internalError (requestId reason : String)
deriving DecidableEq, Repr

namespace Event

def level : Event → Level
  | evicted _ _ _ none | hot _ _ | discarded _ _ | inputsChanged _ | closing _ => .debug
  | compiled _ _ _ _ | compilationFailed _ _ | reset | served _ _ _ _ _ => .info
  | evicted _ _ _ (some _) | releaseFailed _ _ | rejectedBusy _ => .warn
  | invokeFailed _ _ | internalError _ _ => .error

def message : Event → String
  | evicted _ _ _ _ => "evicted cache entry"
  | hot _ _ => "expression is hot"
  | compiled _ _ _ _ => "compiled expression"
  | compilationFailed _ _ => "compilation failed; entry stays interpreted"
  | discarded _ _ => "discarded compiled code"
  | releaseFailed _ _ => "release failed"
  | invokeFailed _ _ => "invoke failed"
  | inputsChanged _ => "inputs changed; re-evaluating"
  | rejectedBusy _ => "rejected request: engine busy"
  | reset => "engine reset"
  | closing _ => "closing engine"
  | served _ _ _ _ _ => "request"
  | internalError _ _ => "internal error"

def details : Event → List (String × Detail)
  | evicted fp count stage failure? =>
      (failure?.map fun r => ("error", Detail.text r)).toList
        ++ [("fingerprint", .text fp.text), ("count", .number count.toNat), ("state", .text stage)]
  | hot fp count => [("fingerprint", .text fp.text), ("count", .number count.toNat)]
  | compiled fp bytes native elapsed =>
      [("fingerprint", .text fp.text), ("bytes", .number bytes), ("native", .flag native), ("elapsed", .time elapsed)]
  | compilationFailed fp reason | discarded fp reason | releaseFailed fp reason | invokeFailed fp reason =>
      [("error", .text reason), ("fingerprint", .text fp.text)]
  | inputsChanged fp => [("fingerprint", .text fp.text)]
  | rejectedBusy timeout => [("timeout", .time timeout)]
  | reset => []
  | closing entries => [("entries", .number entries)]
  | served requestId method path status bytes =>
      [("request_id", .text requestId), ("method", .text method), ("path", .text path), ("status", .number status),
       ("bytes", .number bytes)]
  | internalError requestId reason => [("error", .text reason), ("request_id", .text requestId)]

end Event

end TierCalc
