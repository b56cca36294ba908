import TierCalc.Routine.Generate
import TierCalc.Table

/-!
# Listings

The code of a routine for a reader: one row for each instruction with its bytes, its text and a note on what it
touches, drawn as a table, and a dump of the bytes.

* A memory operand off the frame pointer is noted by the variable in that slot; one in the block by `status`, or by
  the variable with `value` or `written` before it.
* A branch to the last five bytes is noted as `exit`: that is where every routine leaves.
-/

namespace TierCalc.Routine

open X64

/-- One row of a listing. -/
structure Listing.Row where
  offset : Nat
  bytes : Bytes
  text : String
  note : String
deriving DecidableEq, Repr

/-- Why code has no listing: its bytes are no instructions, or an operand lies before the block. -/
inductive ListingError where
  | decode (e : DecodeError)
  | negativeSlot (slot : Int)
deriving DecidableEq, Repr

def ListingError.message : ListingError → String
  | decode e => e.message
  | negativeSlot slot => "runtime error: index out of range [" ++ toString slot ++ "]"

namespace Listing

/-- The size of the common exit. -/
def exitSize : Nat := 5

/-- The variable in a slot; a slot below zero is an error and one beyond the layout has none. -/
def slotName (l : Layout) (slot : Int) (word : String) : Except ListingError String :=
  if slot ≥ l.size then .ok ""
  else if slot < 0 then .error (.negativeSlot slot)
  else .ok (word ++ l.names.getD slot.toNat "")

/-- The note on a memory operand. Its displacement is taken as a number of words, rounded toward zero. -/
def memoryNote (l : Layout) (base : Reg) (disp : Int32) : Except ListingError String :=
  if base = Reg.rbp then
    let slot := (-disp / 8).toInt - 1
    .ok (if slot < 0 then "" else l.names.getD slot.toNat "")
  else if base = Reg.rdi then
    let word := (disp / 8).toInt
    if word = 0 then .ok "status"
    else slotName l ((word - 1).tdiv 2) (if word.tmod 2 = 1 then "value " else "written ")
  else .ok ""

/-- The note on an instruction of code of the given size. -/
def note (size : Nat) (l : Layout) (p : Placed) : Except ListingError String :=
  match p.instr with
  | .load _ b o | .store b o _ | .storeImm b o _ => memoryNote l b o
  | .jcc _ _ | .jmp _ => .ok (if p.target = (size : Int) - exitSize then "exit" else "")
  | .ret => .ok "return rax"
  | _ => .ok ""

def row (code : Bytes) (l : Layout) (p : Placed) : Except ListingError Row := do
  let n ← note code.length l p
  return ⟨p.offset, (code.drop p.offset).take p.instr.size, p.text, n⟩

def rows (code : Bytes) (l : Layout) : Except ListingError (List Row) :=
  match decodeAll code with
  | .error e => .error (.decode e)
  | .ok placed => placed.mapM (row code l)

/-- Bytes as pairs of digits with blanks between them. -/
def bytesText (b : Bytes) : String := " ".intercalate (b.map Bytes.hexByte)

/-- The rows as a table. -/
def render (rows : List Row) : String :=
  Table.render
    { header := ["OFFSET", "BYTES", "INSTRUCTION", "INFO"]
      headerAlign := [.center, .center, .center, .center]
      align := [.right, .left, .left, .left]
      rows := rows.map fun r => [toString r.offset, bytesText r.bytes, r.text, r.note] }

/-- One line of a dump: up to sixteen bytes, with a wider gap in the middle. -/
def dumpLine (offset : Nat) (bytes : Bytes) : String :=
  let right := bytes.drop 8
  Numeral.hexPadded 8 offset ++ ": " ++ bytesText (bytes.take 8)
    ++ (if right.isEmpty then "" else "  " ++ bytesText right) ++ "\n"

/-- The lines of a dump from an offset on. -/
def dumpLines (offset : Nat) (bytes : Bytes) : String :=
  match bytes with
  | [] => ""
  | b :: rest =>
      dumpLine offset ((b :: rest).take 16) ++ dumpLines (offset + 16) ((b :: rest).drop 16)
termination_by bytes.length

/-- A dump of code. -/
def dump (code : Bytes) : String :=
  "machine code (" ++ toString code.length ++ " bytes):\n" ++ dumpLines 0 code

end Listing

end TierCalc.Routine
