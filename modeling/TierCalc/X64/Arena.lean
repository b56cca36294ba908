import TierCalc.X64.Region

/-!
# Arenas

All regions that were ever prepared, each at the index that is its handle. A handle stays taken after its region is
released, so that a second release shows.
-/

namespace TierCalc.X64

/-- The name of a region in its arena. -/
abbrev Handle := Nat

/-- The prepared regions in the order of their handles. -/
structure Arena where
  regions : List Region := []
deriving DecidableEq, Repr, Inhabited

namespace Arena

def get? (a : Arena) (h : Handle) : Option Region := a.regions[h]?

/-- Prepares code and answers its handle. -/
def prepare (a : Arena) (code : Bytes) (entry : Int) : Except RegionError (Handle × Arena) :=
  match Region.prepare code entry with
  | .ok r => .ok (a.regions.length, ⟨a.regions ++ [r]⟩)
  | .error e => .error e

/-- Runs the code of a handle on a block of words. -/
def invoke (a : Arena) (h : Handle) (frame : List Word) : Except RegionError (Word × List Word) :=
  match a.get? h with
  | some r => r.invoke frame
  | none => .error .invokedReleased

/-- Gives the region of a handle up. -/
def release (a : Arena) (h : Handle) : Except RegionError Arena :=
  match a.get? h with
  | some r =>
      match r.release with
      | .ok r => .ok ⟨a.regions.set h r⟩
      | .error e => .error e
  | none => .error .released

/-- The handles whose regions were not given up. -/
def live (a : Arena) : List Handle :=
  (a.regions.zipIdx.filter fun p => p.1.executable).map (·.2)

end Arena

end TierCalc.X64
