import TierCalc.Text.Bytes

/-!
# Lines of an input

A line ends with a line feed, or with a carriage return and a line feed; the last one may end with the input. A line that
does not fit into the reader's buffer comes in pieces of the buffer's size. A carriage return that would end a piece is
left for the next one, where a line feed may follow it.
-/

namespace TierCalc.Lines

/-- The size of the reader's buffer. -/
def room : Nat := 4096

/-- The byte that ends a line. -/
def feed : UInt8 := 10

/-- The byte that may stand before the end of a line. -/
def carriage : UInt8 := 13

/-- The line whose bytes, last one first, stood before a line feed. -/
def ended : Bytes → Bytes
  | b :: rest => if b = carriage then rest.reverse else (b :: rest).reverse
  | [] => []

/-- The lines of an input after bytes that are in the buffer already, last one first, with their number. -/
def after : Bytes → Nat → Bytes → List Bytes
  | [], _, [] => []
  | b :: held, _, [] => [(b :: held).reverse]
  | held, count, b :: rest =>
      if b = feed then ended held :: after [] 0 rest
      else if count + 1 < room then after (b :: held) (count + 1) rest
      else if b = carriage then held.reverse :: after [b] 1 rest
      else (b :: held).reverse :: after [] 0 rest

/-- The lines of an input. -/
def split (input : Bytes) : List Bytes := after [] 0 input

end TierCalc.Lines
