import TierCalc.Service.Handler

/-!
# Hooks

Builtins that act on the engine which evaluates them: they set a variable, reset or close the engine, execute a source
text or ask the service. What such a builtin calls may call hooks again; the nesting is bounded, and beyond the bound
there are no hooks.
-/

namespace TierCalc

/-- What a hook does with its arguments. -/
inductive Action where
  | sum
  | product
  | count
  | set (name : String)
  | reset
  | close
  | execute (source : String)
  | get (target : String)
deriving DecidableEq, Repr

structure Hook where
  name : String
  arity : Int
  action : Action
deriving DecidableEq, Repr

namespace Action

/-- One for success and zero for failure. -/
def success {α : Type} : Except EngineError α × Engine → Int64 × Engine
  | (.ok _, s) => (1, s)
  | (.error _, s) => (0, s)

/-- Does an action, with the builtins that it may use itself. -/
def run (fns : Builtins Engine) : Action → List Int64 → Engine → Int64 × Engine
  | sum, args, s => (Builtin.sum args, s)
  | product, args, s => (Builtin.product args, s)
  | count, args, s => (Builtin.count args, s)
  | set name, args, s => success (s.setVariable name (args.headD 0))
  | reset, _, s => success s.reset
  | close, _, s => success s.close
  | execute source, _, s =>
      match s.execute fns { bytes := Bytes.ofString source } with
      | (.ok x, s) => (x.value, s)
      | (.error _, s) => (-1, s)
  | get target, _, s =>
      let (response, s) := Service.handle fns { method := "GET", target := target } s
      (Int64.ofNat response.status, s)

end Action

/-- The builtins of hooks, nested to a depth. -/
def Hook.builtins (hooks : List Hook) : Nat → Builtins Engine
  | 0 => .withDefaults []
  | depth + 1 =>
      .withDefaults (hooks.map fun h =>
        ⟨h.name, h.arity, fun args s => h.action.run (Hook.builtins hooks depth) args s⟩)

end TierCalc
