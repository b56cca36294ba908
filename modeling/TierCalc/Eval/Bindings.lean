/-!
# Bindings

A finite map from names to 64-bit integers, kept as a list in increasing order of names with each name once, so that
maps with the same bindings are equal. `get?` is the view; `set` keeps the order.
-/

namespace TierCalc

/-- Values bound to names. -/
structure Bindings where
  entries : List (String × Int64) := []
deriving DecidableEq, Repr, Inhabited

namespace Bindings

/-- The list with the name bound to the value. -/
def put (name : String) (value : Int64) : List (String × Int64) → List (String × Int64)
  | [] => [(name, value)]
  | (n, v) :: rest =>
      if name = n then (n, value) :: rest
      else if name < n then (name, value) :: (n, v) :: rest
      else (n, v) :: put name value rest

def get? (b : Bindings) (name : String) : Option Int64 := b.entries.lookup name

/-- The bindings with the name bound to the value. -/
def set (b : Bindings) (name : String) (value : Int64) : Bindings := ⟨put name value b.entries⟩

def empty : Bindings := {}

/-- The bindings of a list of pairs, later ones taking the place of earlier ones. -/
def ofList (pairs : List (String × Int64)) : Bindings := pairs.foldl (fun b p => b.set p.1 p.2) empty

def names (b : Bindings) : List String := b.entries.map (·.1)

def size (b : Bindings) : Nat := b.entries.length

/-- The bindings of `b` with those of `w` on top. -/
def update (b w : Bindings) : Bindings := w.entries.foldl (fun b p => b.set p.1 p.2) b

end Bindings

end TierCalc
