import TierCalc.Eval.Bindings

/-!
# Scopes

Where an expression finds and leaves the values of its variables. Bindings are a scope in which assignments take
effect at once. An overlay reads through to bindings below it and keeps its own assignments apart, so that an
evaluation that fails leaves the bindings below as they were.
-/

namespace TierCalc

/-- What evaluation asks of the place where variables live. -/
class Scope (σ : Type) where
  get? : σ → String → Option Int64
  set : σ → String → Int64 → σ
  names : σ → List String

instance : Scope Bindings where
  get? := Bindings.get?
  set := Bindings.set
  names := Bindings.names

/-- Assignments on top of bindings that stay as they are. -/
structure Overlay where
  base : Bindings := {}
  writes : Bindings := {}
deriving DecidableEq, Repr

namespace Overlay

/-- The overlay without assignments. -/
def on (base : Bindings) : Overlay := ⟨base, {}⟩

/-- The value of a name: the assigned one, or else the one below. -/
def get? (o : Overlay) (name : String) : Option Int64 := (o.writes.get? name).or (o.base.get? name)

/-- The overlay with one more assignment. -/
def set (o : Overlay) (name : String) (value : Int64) : Overlay := { o with writes := o.writes.set name value }

/-- The names that have a value, in increasing order. -/
def names (o : Overlay) : List String := (o.base.update o.writes).names

/-- The bindings with the overlay's assignments. -/
def commit (o : Overlay) (b : Bindings) : Bindings := b.update o.writes

end Overlay

instance : Scope Overlay where
  get? := Overlay.get?
  set := Overlay.set
  names := Overlay.names

end TierCalc
