import TierCalc.X64.Instr

/-!
# Variables of a routine

A routine keeps every variable in a slot. Slots are given out in the order in which names are first met, the seeded
ones first, and never twice.

* In the routine's own stack frame, slot `i` is the word at `-8 * (i + 1)` from the frame pointer.
* The block that caller and routine share has a status word, and for each slot a value word and a word that tells
  whether the routine assigned the variable.
-/

namespace TierCalc.Routine

/-- The names of a routine in the order of their slots; the first `seeds` of them are supplied by the caller. -/
structure Layout where
  names : List String := []
  seeds : Nat := 0
deriving DecidableEq, Repr, Inhabited

namespace Layout

def size (l : Layout) : Nat := l.names.length

def slot? (l : Layout) (name : String) : Option Nat := l.names.idxOf? name

/-- The names with one more, unless it is there already. -/
def add (names : List String) (name : String) : List String :=
  if names.contains name then names else names ++ [name]

/-- The layout that gives slots to the seeds in order. -/
def ofSeeds (seeds : List String) : Layout :=
  let names := seeds.foldl add []
  ⟨names, names.length⟩

/-- The names that the caller supplies. -/
def seedNames (l : Layout) : List String := l.names.take l.seeds

end Layout

/-- The distance of a slot from the frame pointer. -/
def frameOffset (slot : Nat) : Int32 := Int32.ofInt (-8 * (slot + 1))

/-- The offset of a slot's value word in the block. -/
def valueOffset (slot : Nat) : Int32 := Int32.ofNat (8 * (1 + 2 * slot))

/-- The offset of a slot's written word in the block. -/
def flagOffset (slot : Nat) : Int32 := Int32.ofNat (8 * (2 + 2 * slot))

/-- The block of words that caller and routine share. -/
abbrev Frame := List Int64

namespace Frame

/-- The number of words for a number of slots. -/
def words (slots : Nat) : Nat := 1 + 2 * slots

def zero (slots : Nat) : Frame := List.replicate (words slots) 0

/-- The status word: zero after success, one after division by zero, two after a remainder by zero. -/
def status (f : Frame) : Int64 := f.getD 0 0

/-- The block with the value of a slot set. -/
def setValue (f : Frame) (slot : Nat) (v : Int64) : Frame := f.set (1 + 2 * slot) v

def value (f : Frame) (slot : Nat) : Int64 := f.getD (1 + 2 * slot) 0

/-- Whether the routine assigned a slot. -/
def written (f : Frame) (slot : Nat) : Bool := f.getD (2 + 2 * slot) 0 != 0

/-- A short description of the block. -/
def text (f : Frame) : String :=
  "frame(status=" ++ toString f.status.toInt ++ ", words=" ++ toString f.length ++ ")"

/-- The block for a layout in which the named values stand in their slots. -/
def load (l : Layout) (value? : String → Option Int64) : Frame :=
  l.names.zipIdx.foldl
    (fun f p =>
      match value? p.1 with
      | some v => f.setValue p.2 v
      | none => f)
    (zero l.size)

/-- The names that the routine assigned, with their values, in the order of their slots. -/
def assigned (l : Layout) (f : Frame) : List (String × Int64) :=
  (l.names.zipIdx.filter fun p => f.written p.2).map fun p => (p.1, f.value p.2)

end Frame

/-- The status word after a division by zero. -/
def statusDivide : Int32 := 1

/-- The status word after a remainder by zero. -/
def statusModulo : Int32 := 2

/-- The largest number of slots. -/
def maxSlots : Nat := 32

/-- The largest number of operand words on the stack. -/
def maxDepth : Nat := 48

end TierCalc.Routine
