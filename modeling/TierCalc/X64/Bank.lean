/-!
# Banks of words

A word for every key: the one that was written last, or else the one that was there at first. Registers are a bank
over register names and memory is a bank over addresses.

* `get` is the view. `get_set_self` and `get_set_of_ne` say what writing does to it.
* Writing a key again replaces its word, so a bank grows only with the number of keys that were ever written.
-/

namespace TierCalc.X64

/-- A 64-bit word. -/
abbrev Word := Int64

/-- Words by key. -/
structure Bank (κ : Type) where
  initial : κ → Word
  writes : List (κ × Word) := []

namespace Bank

variable {κ : Type} [DecidableEq κ]

/-- The word written last at a key. -/
def find? (k : κ) : List (κ × Word) → Option Word
  | [] => none
  | (x, w) :: rest => if x = k then some w else find? k rest

/-- The writes with one more, in the place of an earlier one at the same key. -/
def put (k : κ) (w : Word) : List (κ × Word) → List (κ × Word)
  | [] => [(k, w)]
  | (x, v) :: rest => if x = k then (k, w) :: rest else (x, v) :: put k w rest

/-- The word at a key. -/
def get (b : Bank κ) (k : κ) : Word := (find? k b.writes).getD (b.initial k)

/-- The bank with the word at a key changed. -/
def set (b : Bank κ) (k : κ) (w : Word) : Bank κ := { b with writes := put k w b.writes }

theorem find?_put_self (k : κ) (w : Word) (ws : List (κ × Word)) : find? k (put k w ws) = some w := by
  induction ws with
  | nil => simp [put, find?]
  | cons p rest ih =>
      by_cases h : p.1 = k
      · simp [put, find?, h]
      · simp [put, find?, h, ih]

theorem find?_put_of_ne {k x : κ} (h : x ≠ k) (w : Word) (ws : List (κ × Word)) :
    find? x (put k w ws) = find? x ws := by
  induction ws with
  | nil => simp [put, find?, Ne.symm h]
  | cons p rest ih =>
      by_cases hp : p.1 = k
      · simp [put, find?, hp, Ne.symm h]
      · simp only [put, hp, if_false, find?, ih]

@[simp] theorem get_set_self (b : Bank κ) (k : κ) (w : Word) : (b.set k w).get k = w := by
  simp [get, set, find?_put_self]

theorem get_set_of_ne (b : Bank κ) {k x : κ} (h : x ≠ k) (w : Word) : (b.set k w).get x = b.get x := by
  simp [get, set, find?_put_of_ne h]

end Bank

end TierCalc.X64
