import TierCalc.Proofs.X64.Execution
import TierCalc.Routine.Layout

/-!
# The memory of a call

A routine works on the words of the block that it shares with its caller and on the words of the stack below its
return address. `Area` says where they lie; `Place` names one of them.

* Block and stack share no byte (`Area.Sound`), so a store at one place is seen there and nowhere else
  (`word_store_self`, `word_store_of_ne`).
* Once the frame is set up (`InFrame`), the operands of the routine's instructions are places: variables stand at
  places 2, 3, … of the stack, behind the return address and the saved frame pointer, and pushed operands behind the
  variables.
-/

namespace TierCalc.Routine

open X64

/-- A word that a routine uses: one of the block, or one of the stack counted down from the return address. -/
inductive Place where
  | block (i : Nat)
  | stack (j : Nat)
deriving DecidableEq, Repr

/-- Where the block of a call starts and where its return address stands, and for how many variables and pushed
operands there is room. -/
structure Area where
  block : Word
  top : Word
  slots : Nat
  operands : Nat

namespace Area

def address (a : Area) : Place → Word
  | .block i => a.block + Int64.ofNat (8 * i)
  | .stack j => a.top - Int64.ofNat (8 * j)

/-- Whether a place is one of the call's. -/
def Has (a : Area) : Place → Prop
  | .block i => i < Frame.words a.slots
  | .stack j => j ≤ 1 + a.slots + a.operands

/-- Whether the block and the stack share no byte. -/
def Separate (a : Area) : Prop :=
  ∀ i j, a.Has (.block i) → a.Has (.stack j) → State.Apart (a.address (.block i)) (a.address (.stack j))

/-- Whether the area is of the size that routines have and its block and stack share no byte. -/
structure Sound (a : Area) : Prop where
  slots_le : a.slots ≤ maxSlots
  operands_le : a.operands ≤ maxDepth
  separate : a.Separate

/-- Whether a routine may store at an address: in the block, or on the stack below the return address. -/
def Allows (a : Area) (x : Word) : Prop :=
  (∃ i, i < Frame.words a.slots ∧ x = a.address (.block i)) ∨
  ∃ j, 1 ≤ j ∧ j ≤ 1 + a.slots + a.operands ∧ x = a.address (.stack j)

variable {a : Area}

theorem toNat_ofNat {n : Nat} (h : n < 2 ^ 64) : (Int64.ofNat n).toUInt64.toNat = n := by
  rw [Int64.toUInt64_ofNat', UInt64.toNat_ofNat']
  exact Nat.mod_eq_of_lt h

theorem toNat_block (a : Area) {i : Nat} (hi : 8 * i < 2 ^ 64) :
    (a.address (.block i)).toUInt64.toNat = (a.block.toUInt64.toNat + 8 * i) % 2 ^ 64 := by
  rw [address, Int64.toUInt64_add, UInt64.toNat_add, toNat_ofNat hi]

theorem toNat_stack (a : Area) {j : Nat} (hj : 8 * j < 2 ^ 64) :
    (a.address (.stack j)).toUInt64.toNat = (2 ^ 64 - 8 * j + a.top.toUInt64.toNat) % 2 ^ 64 := by
  rw [address, State.toNat_sub, toNat_ofNat hj]

theorem Sound.block_lt (ha : a.Sound) {i : Nat} (hi : a.Has (.block i)) : i < 65 := by
  have := ha.slots_le
  simp only [Has, Frame.words, maxSlots] at *
  omega

theorem Sound.stack_lt (ha : a.Sound) {j : Nat} (hj : a.Has (.stack j)) : j < 82 := by
  have := ha.slots_le
  have := ha.operands_le
  simp only [Has, maxSlots, maxDepth] at *
  omega

theorem Sound.apart_of_ne (ha : a.Sound) {x y : Place} (hx : a.Has x) (hy : a.Has y) (h : x ≠ y) :
    State.Apart (a.address x) (a.address y) := by
  cases x with
  | block i =>
      cases y with
      | block k =>
          have hi := ha.block_lt hx
          have hk := ha.block_lt hy
          have hne : i ≠ k := fun e => h (by rw [e])
          unfold State.Apart
          rw [State.toNat_sub, State.toNat_sub, toNat_block a (by omega), toNat_block a (by omega)]
          omega
      | stack j => exact ha.separate i j hx hy
  | stack j =>
      cases y with
      | block i => exact (ha.separate i j hy hx).symm
      | stack k =>
          have hj := ha.stack_lt hx
          have hk := ha.stack_lt hy
          have hne : j ≠ k := fun e => h (by rw [e])
          unfold State.Apart
          rw [State.toNat_sub, State.toNat_sub, toNat_stack a (by omega), toNat_stack a (by omega)]
          omega

theorem address_stack_zero (a : Area) : a.address (.stack 0) = a.top := Int64.sub_zero a.top

theorem address_stack_succ (a : Area) (j : Nat) :
    a.address (.stack (j + 1)) = a.address (.stack j) - 8 := by
  have e : Int64.ofNat (8 * 1) = 8 := rfl
  simp only [address, Nat.mul_add, Int64.ofNat_add, e]
  grind

theorem address_stack_pred (a : Area) (j : Nat) :
    a.address (.stack (j + 1)) + 8 = a.address (.stack j) := by
  rw [address_stack_succ, Int64.sub_add_cancel]

end Area

def word (a : Area) (s : State) (x : Place) : Word := s.load (a.address x)

section
variable {a : Area} (s : State) (x : Place)

@[simp] theorem word_goto (pc : Int) : word a (s.goto pc) x = word a s x := rfl
@[simp] theorem word_setReg (r : Reg) (w : Word) : word a (s.setReg r w) x = word a s x := rfl
@[simp] theorem word_setFlags (f : Flags) : word a (s.setFlags f) x = word a s x := rfl
@[simp] theorem word_setByte (r : Reg) (b : UInt64) : word a (s.setByte r b) x = word a s x := rfl

@[simp] theorem word_store_self (w : Word) : word a (s.store (a.address x) w) x = w :=
  s.load_store_self _ w

theorem word_store_of_ne (ha : a.Sound) {x y : Place} (hx : a.Has x) (hy : a.Has y) (h : y ≠ x) (w : Word) :
    word a (s.store (a.address x) w) y = word a s y :=
  s.load_store_of_apart (ha.apart_of_ne hx hy h.symm) w

end

/-! ### The frame -/

/-- Whether the frame of a call is set up and holds a number of operands. -/
structure InFrame (a : Area) (depth : Nat) (s : State) : Prop where
  rbp : s.reg .rbp = a.address (.stack 1)
  rdi : s.reg .rdi = a.block
  rsp : s.reg .rsp = a.address (.stack (1 + a.slots + depth))
  room : depth ≤ a.operands

theorem toInt64_ofNat {n : Nat} (h : n < 2 ^ 31) : (Int32.ofNat n).toInt64 = Int64.ofNat n := by
  rw [← Int32.ofInt_eq_ofNat, ← Int64.ofInt_eq_ofNat]
  apply Int32.toInt64_ofInt
  · rw [Int32.toInt_minValue]
    omega
  · rw [Int32.toInt_maxValue]
    omega

theorem toInt64_frameOffset {slot : Nat} (h : slot < maxSlots) :
    (frameOffset slot).toInt64 = -Int64.ofNat (8 * (slot + 1)) := by
  have hs : slot < 32 := h
  have hmin : Int32.minValue.toInt ≤ -8 * ((slot : Int) + 1) := by
    rw [Int32.toInt_minValue]
    omega
  have hmax : -8 * ((slot : Int) + 1) ≤ Int32.maxValue.toInt := by
    rw [Int32.toInt_maxValue]
    omega
  have hi : -8 * ((slot : Int) + 1) = -((8 * (slot + 1) : Nat) : Int) := by omega
  calc (frameOffset slot).toInt64
      = Int64.ofInt (-8 * ((slot : Int) + 1)) := Int32.toInt64_ofInt hmin hmax
    _ = Int64.ofInt (-((8 * (slot + 1) : Nat) : Int)) := by rw [hi]
    _ = -Int64.ofNat (8 * (slot + 1)) := by rw [Int64.ofInt_neg, Int64.ofInt_eq_ofNat]

namespace InFrame

variable {a : Area} {depth slot : Nat} {s : State}

theorem address_slot (h : InFrame a depth s) (hs : slot < maxSlots) :
    s.address .rbp (frameOffset slot) = a.address (.stack (2 + slot)) := by
  have e : 8 * (2 + slot) = 8 * 1 + 8 * (slot + 1) := by omega
  rw [State.address, h.rbp, toInt64_frameOffset hs]
  simp only [Area.address, e, Int64.ofNat_add]
  grind

theorem address_value (h : InFrame a depth s) (hs : slot < maxSlots) :
    s.address .rdi (valueOffset slot) = a.address (.block (1 + 2 * slot)) := by
  have hs' : slot < 32 := hs
  rw [State.address, h.rdi, valueOffset, toInt64_ofNat (by omega)]
  rfl

theorem address_flag (h : InFrame a depth s) (hs : slot < maxSlots) :
    s.address .rdi (flagOffset slot) = a.address (.block (2 + 2 * slot)) := by
  have hs' : slot < 32 := hs
  rw [State.address, h.rdi, flagOffset, toInt64_ofNat (by omega)]
  rfl

theorem address_status (h : InFrame a depth s) : s.address .rdi 0 = a.address (.block 0) := by
  rw [State.address, h.rdi]
  rfl

end InFrame

end TierCalc.Routine
