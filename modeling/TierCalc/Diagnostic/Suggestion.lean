import TierCalc.Diagnostic.EditDistance
import TierCalc.Text.Bytes
import TierCalc.Text.LowerCase

/-!
# Suggestions

For a name that is not known, up to three known names that are spelled alike: those within a small edit distance,
counted in bytes and regardless of case, the nearest first and names at one distance in increasing order.
-/

namespace TierCalc

/-- A known name and how far it is from the one that was looked for. -/
structure Suggestion where
  value : String
  distance : Nat
deriving DecidableEq, Repr

namespace Suggestion

/-- How far a suggestion may be from a name of the given length in bytes. -/
def threshold (length : Nat) : Nat := if length ≤ 3 then 1 else if length ≤ 5 then 2 else 3

/-- The largest number of suggestions. -/
def limit : Nat := 3

/-- The distance of two names regardless of case. -/
def nameDistance (a b : String) : Nat :=
  EditDistance.distance (Bytes.ofString (Text.lower a)) (Bytes.ofString (Text.lower b))

/-- The order of suggestions: by distance, then by name. -/
def le (a b : Suggestion) : Bool :=
  a.distance < b.distance || (a.distance == b.distance && a.value ≤ b.value)

/-- The suggestions for a name among the known ones. -/
def similar (target : String) (candidates : List String) : List Suggestion :=
  if target == "" then []
  else
    let near := (candidates.filter fun c => c != "" && c != target).map fun c => ⟨c, nameDistance target c⟩
    ((near.filter fun s => s.distance ≤ threshold target.utf8ByteSize).mergeSort le).take limit

/-- Suggestions as a question, or nothing if there are none. -/
def question (suggestions : List Suggestion) : String :=
  match suggestions with
  | [] => ""
  | [s] => "did you mean '" ++ s.value ++ "'?"
  | _ => "did you mean one of: " ++ ", ".intercalate (suggestions.map fun s => "'" ++ s.value ++ "'") ++ "?"

end Suggestion

end TierCalc
