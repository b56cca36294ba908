import TierCalc.Profile.Fingerprint

/-!
# The profile cache

For each fingerprint the cache counts how often its expression was submitted, and says when it should be compiled.

* An entry starts cold. The submission that brings its count to the threshold promotes it, if the expression can be
  compiled: the entry then awaits its artifact. An expression that cannot be compiled is set aside for good.
* An entry that awaits its artifact is compiled once the artifact is installed, or is set aside if that fails.
* The cache holds at most `capacity` entries. Before one more is taken in, the entry that was submitted least goes;
  of several, the one with the lowest fingerprint.

Artifacts may be of any type `α`, and live somewhere. An entry that goes has its artifact released there, which may
fail; the entry is gone all the same. `record`, `evictIfFull` and `clear` say which entries go, and `submit`, `makeRoom`
and `discard` also release them.
-/

namespace TierCalc

/-- How far an entry is on the way to compiled code, with the artifact where there is one. -/
inductive Stage (α : Type) where
  | cold
  | attempted
  | compiled (artifact : α)
  | neverCompile
deriving DecidableEq, Repr

namespace Stage

variable {α : Type}

def name : Stage α → String
  | cold => "cold"
  | attempted => "attempted"
  | compiled _ => "compiled"
  | neverCompile => "never_compile"

def artifact? : Stage α → Option α
  | compiled a => some a
  | _ => none

end Stage

/-- What the cache knows about one fingerprint. -/
structure Entry (α : Type) where
  fingerprint : Fingerprint
  expr : String
  count : UInt64 := 0
  stage : Stage α := .cold
deriving DecidableEq, Repr

namespace Entry

variable {α : Type}

def artifact? (e : Entry α) : Option α := e.stage.artifact?

/-- Whether `e` goes before `f` when room is needed: by count, then by fingerprint. -/
def yieldsBefore (e f : Entry α) : Bool :=
  e.count < f.count || (e.count == f.count && e.fingerprint.value < f.fingerprint.value)

/-- The entry after one more submission, and whether that promotes it. -/
def submit (e : Entry α) (threshold : UInt64) (compilable : Bool) : Entry α × Bool :=
  let e := { e with count := e.count + 1 }
  match e.stage with
  | .cold =>
      if e.count < threshold then (e, false)
      else if compilable then ({ e with stage := .attempted }, true)
      else ({ e with stage := .neverCompile }, false)
  | _ => (e, false)

end Entry

/-- The entries, and how many were removed to make room. -/
structure Cache (α : Type) where
  threshold : UInt64
  capacity : Nat
  entries : List (Entry α) := []
  evictions : UInt64 := 0
deriving DecidableEq, Repr

/-- What can be wrong with an installation. -/
inductive InstallError where
  | notFound
  | notAttempted
deriving DecidableEq, Repr

def InstallError.message : InstallError → String
  | notFound => "hotspot: no entry for fingerprint"
  | notAttempted => "hotspot: entry is not awaiting compilation"

/-- The answer to a submission: the count with it, whether the caller should compile now, the entry that had to go,
and the cache afterwards. -/
structure Submission (α : Type) where
  count : UInt64
  promote : Bool
  evicted? : Option (Entry α)
  cache : Cache α

namespace Cache

variable {α : Type}

/-- An empty cache. Threshold and capacity are at least one. -/
def new (threshold : UInt64) (capacity : Int) : Cache α :=
  { threshold := if threshold < 1 then 1 else threshold, capacity := if capacity < 1 then 1 else capacity.toNat }

def size (c : Cache α) : Nat := c.entries.length

def find? (c : Cache α) (fp : Fingerprint) : Option (Entry α) := c.entries.find? (·.fingerprint == fp)

/-- The list with an entry in the place of the one with its fingerprint, or at the end. -/
def place (e : Entry α) : List (Entry α) → List (Entry α)
  | [] => [e]
  | x :: rest => if x.fingerprint = e.fingerprint then e :: rest else x :: place e rest

/-- The cache with an entry put in. -/
def put (c : Cache α) (e : Entry α) : Cache α := { c with entries := place e c.entries }

/-- The entry that goes first. -/
def least? : List (Entry α) → Option (Entry α)
  | [] => none
  | e :: rest =>
      match least? rest with
      | none => some e
      | some m => some (if m.yieldsBefore e then m else e)

/-- Removes the entry that goes first, if the cache is full. -/
def evictIfFull (c : Cache α) : Option (Entry α) × Cache α :=
  if c.size < c.capacity then (none, c)
  else
    match least? c.entries with
    | none => (none, c)
    | some e =>
        (some e,
          { c with
            entries := c.entries.filter (·.fingerprint != e.fingerprint)
            evictions := c.evictions + 1 })

/-- Counts a submission of an expression. -/
def record (c : Cache α) (fp : Fingerprint) (compilable : Bool) (expr : String) : Submission α :=
  let (evicted?, c) := if (c.find? fp).isSome then (none, c) else c.evictIfFull
  let (e, promote) := ((c.find? fp).getD ⟨fp, expr, 0, .cold⟩).submit c.threshold compilable
  ⟨e.count, promote, evicted?, c.put e⟩

/-- Gives its artifact to an entry that awaits one. -/
def install (c : Cache α) (fp : Fingerprint) (artifact : α) : Except InstallError (Cache α) :=
  match c.find? fp with
  | none => .error .notFound
  | some e =>
      match e.stage with
      | .attempted => .ok (c.put { e with stage := .compiled artifact })
      | _ => .error .notAttempted

/-- Sets an entry aside that awaits its artifact. -/
def markFailed (c : Cache α) (fp : Fingerprint) : Cache α :=
  match c.find? fp with
  | none => c
  | some e =>
      match e.stage with
      | .attempted => c.put { e with stage := .neverCompile }
      | _ => c

/-- The entries by falling count, those with the same count by rising fingerprint. -/
def ranking (c : Cache α) : List (Entry α) :=
  c.entries.mergeSort fun e f =>
    f.count < e.count || (e.count == f.count && e.fingerprint.value ≤ f.fingerprint.value)

/-- Gives all entries up. -/
def clear (c : Cache α) : List (Entry α) × Cache α := (c.entries, { c with entries := [], evictions := 0 })

end Cache

/-! ### Releasing artifacts -/

section
variable {α ρ ε : Type} (free : α → ρ → Option ε × ρ)

/-- Releases the artifact of an entry, if it has one. `free` releases an artifact in the place where artifacts live, and
tells the reason if that fails. -/
def Entry.release (e : Entry α) (place : ρ) : Option ε × ρ :=
  match e.artifact? with
  | none => (none, place)
  | some a => free a place

def Entry.releaseEvicted (evicted? : Option (Entry α)) (place : ρ) : Option ε × ρ :=
  match evicted? with
  | none => (none, place)
  | some e => e.release free place

/-- Releases the artifacts of entries one after another, also after a failure. -/
def Entry.releaseAll : List (Entry α) → ρ → List (Fingerprint × ε) × ρ
  | [], place => ([], place)
  | e :: rest, place =>
      let (failure?, place) := e.release free place
      let (failures, place) := releaseAll rest place
      ((failure?.map fun r => (e.fingerprint, r)).toList ++ failures, place)

namespace Cache

/-- Removes the entry that goes first from a full cache and releases its artifact. -/
def makeRoom (c : Cache α) (place : ρ) : Option (Entry α) × Option ε × Cache α × ρ :=
  let (evicted?, c) := c.evictIfFull
  let (failure?, place) := Entry.releaseEvicted free evicted? place
  (evicted?, failure?, c, place)

/-- Counts a submission of an expression, and releases the artifact of the entry that had to go. -/
def submit (c : Cache α) (fp : Fingerprint) (compilable : Bool) (expr : String) (place : ρ) :
    Submission α × Option ε × ρ :=
  let r := c.record fp compilable expr
  let (failure?, place) := Entry.releaseEvicted free r.evicted? place
  (r, failure?, place)

/-- Gives all entries up and releases their artifacts. -/
def discard (c : Cache α) (place : ρ) : List (Fingerprint × ε) × Cache α × ρ :=
  let (entries, c) := c.clear
  let (failures, place) := Entry.releaseAll free entries place
  (failures, c, place)

end Cache

end

/-- The wording for an artifact that could not be released. -/
def releaseFailureText (fp : Fingerprint) (reason : String) : String := "release " ++ fp.text ++ ": " ++ reason

/-- The wording for several failures at once. -/
def failuresText (failures : List String) : String :=
  let head :=
    if failures.length = 1 then "1 error occurred:" else toString failures.length ++ " errors occurred:"
  head ++ "\n" ++ String.join (failures.map fun f => "\t* " ++ f ++ "\n") ++ "\n"

end TierCalc
