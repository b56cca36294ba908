import TierCalc.Expr.Basic

/-!
# Names in expressions

The names that an expression reads and the names that it assigns, in branches that may not run included. Assignment
targets and function names are no reads. Two expressions interfere if one assigns a name that the other reads or
assigns; operands that do not interfere may be evaluated in either order.
-/

namespace TierCalc

namespace Expr

mutual

/-- The names that are read in front of a tail. -/
def readsOnto (tail : List String) : Expr → List String
  | int _ _ _ => tail
  | ident _ name => name :: tail
  | binary l _ _ r => readsOnto (readsOnto tail r) l
  | assign _ _ _ v => readsOnto tail v
  | call _ _ _ args _ => argReadsOnto tail args
  | cond _ _ c y n _ => readsOnto (readsOnto (readsOnto tail n) y) c

/-- The names that a list of arguments reads in front of a tail. -/
def argReadsOnto (tail : List String) : List Expr → List String
  | [] => tail
  | a :: rest => readsOnto (argReadsOnto tail rest) a

end

mutual

theorem readsOnto_append (s t : List String) : (e : Expr) → e.readsOnto (s ++ t) = e.readsOnto s ++ t
  | int _ _ _ => rfl
  | ident _ _ => rfl
  | binary l _ _ r => by simp [readsOnto, readsOnto_append _ _ l, readsOnto_append _ _ r]
  | assign _ _ _ v => by simp [readsOnto, readsOnto_append _ _ v]
  | call _ _ _ args _ => by simp [readsOnto, argReadsOnto_append _ _ args]
  | cond _ _ c y n _ => by simp [readsOnto, readsOnto_append _ _ c, readsOnto_append _ _ y, readsOnto_append _ _ n]

theorem argReadsOnto_append (s t : List String) : (args : List Expr) → argReadsOnto (s ++ t) args = argReadsOnto s args ++ t
  | [] => rfl
  | a :: rest => by simp [argReadsOnto, readsOnto_append _ _ a, argReadsOnto_append _ _ rest]

end

/-- The names that are read, in source order and as often as they occur. -/
def reads (e : Expr) : List String := e.readsOnto []

theorem readsOnto_eq (tail : List String) (e : Expr) : e.readsOnto tail = e.reads ++ tail := readsOnto_append [] tail e

theorem argReadsOnto_eq (tail : List String) (args : List Expr) : argReadsOnto tail args = args.flatMap reads ++ tail := by
  induction args with
  | nil => rfl
  | cons a rest ih => simp [argReadsOnto, readsOnto_eq, ih]

@[simp] theorem reads_int (p : Position) (literal : String) (v : Int64) : (int p literal v).reads = [] := rfl

@[simp] theorem reads_ident (p : Position) (name : String) : (ident p name).reads = [name] := rfl

@[simp] theorem reads_binary (l r : Expr) (p : Position) (op : UInt8) :
    (binary l p op r).reads = l.reads ++ r.reads := readsOnto_eq _ l

@[simp] theorem reads_assign (p q : Position) (name : String) (v : Expr) : (assign p name q v).reads = v.reads := rfl

@[simp] theorem reads_call (p q r : Position) (name : String) (args : List Expr) :
    (call p name q args r).reads = args.flatMap reads := by
  have h := argReadsOnto_eq [] args
  rwa [List.append_nil] at h

@[simp] theorem reads_cond (p q r : Position) (c y n : Expr) :
    (cond p q c y n r).reads = c.reads ++ (y.reads ++ n.reads) := by
  change readsOnto (readsOnto (readsOnto [] n) y) c = _
  rw [readsOnto_eq, readsOnto_eq, readsOnto_eq, List.append_nil]

mutual

/-- The names that are assigned in front of a tail. -/
def writesOnto (tail : List String) : Expr → List String
  | int _ _ _ => tail
  | ident _ _ => tail
  | binary l _ _ r => writesOnto (writesOnto tail r) l
  | assign _ name _ v => name :: writesOnto tail v
  | call _ _ _ args _ => argWritesOnto tail args
  | cond _ _ c y n _ => writesOnto (writesOnto (writesOnto tail n) y) c

/-- The names that a list of arguments assigns in front of a tail. -/
def argWritesOnto (tail : List String) : List Expr → List String
  | [] => tail
  | a :: rest => writesOnto (argWritesOnto tail rest) a

end

mutual

theorem writesOnto_append (s t : List String) : (e : Expr) → e.writesOnto (s ++ t) = e.writesOnto s ++ t
  | int _ _ _ => rfl
  | ident _ _ => rfl
  | binary l _ _ r => by simp [writesOnto, writesOnto_append _ _ l, writesOnto_append _ _ r]
  | assign _ _ _ v => by simp [writesOnto, writesOnto_append _ _ v]
  | call _ _ _ args _ => by simp [writesOnto, argWritesOnto_append _ _ args]
  | cond _ _ c y n _ => by simp [writesOnto, writesOnto_append _ _ c, writesOnto_append _ _ y, writesOnto_append _ _ n]

theorem argWritesOnto_append (s t : List String) : (args : List Expr) → argWritesOnto (s ++ t) args = argWritesOnto s args ++ t
  | [] => rfl
  | a :: rest => by simp [argWritesOnto, writesOnto_append _ _ a, argWritesOnto_append _ _ rest]

end

/-- The names that are assigned, in source order and as often as they occur. -/
def writes (e : Expr) : List String := e.writesOnto []

theorem writesOnto_eq (tail : List String) (e : Expr) : e.writesOnto tail = e.writes ++ tail := writesOnto_append [] tail e

theorem argWritesOnto_eq (tail : List String) (args : List Expr) : argWritesOnto tail args = args.flatMap writes ++ tail := by
  induction args with
  | nil => rfl
  | cons a rest ih => simp [argWritesOnto, writesOnto_eq, ih]

@[simp] theorem writes_int (p : Position) (literal : String) (v : Int64) : (int p literal v).writes = [] := rfl

@[simp] theorem writes_ident (p : Position) (name : String) : (ident p name).writes = [] := rfl

@[simp] theorem writes_binary (l r : Expr) (p : Position) (op : UInt8) :
    (binary l p op r).writes = l.writes ++ r.writes := writesOnto_eq _ l

@[simp] theorem writes_assign (p q : Position) (name : String) (v : Expr) :
    (assign p name q v).writes = name :: v.writes := rfl

@[simp] theorem writes_call (p q r : Position) (name : String) (args : List Expr) :
    (call p name q args r).writes = args.flatMap writes := by
  have h := argWritesOnto_eq [] args
  rwa [List.append_nil] at h

@[simp] theorem writes_cond (p q r : Position) (c y n : Expr) :
    (cond p q c y n r).writes = c.writes ++ (y.writes ++ n.writes) := by
  change writesOnto (writesOnto (writesOnto [] n) y) c = _
  rw [writesOnto_eq, writesOnto_eq, writesOnto_eq, List.append_nil]

/-- Whether the expression calls no function anywhere. -/
def callFree : Expr → Bool
  | int _ _ _ => true
  | ident _ _ => true
  | binary l _ _ r => l.callFree && r.callFree
  | assign _ _ _ v => v.callFree
  | call _ _ _ _ _ => false
  | cond _ _ c y n _ => c.callFree && y.callFree && n.callFree

end Expr

namespace Names

/-- Whether two lists share a name. -/
def intersect (xs ys : List String) : Bool := xs.any (ys.contains ·)

/-- A list without the elements that equal the one before them. -/
def withoutRepeats : List String → List String
  | [] => []
  | [n] => [n]
  | m :: n :: rest => if m = n then withoutRepeats (n :: rest) else m :: withoutRepeats (n :: rest)

@[simp] theorem mem_withoutRepeats (name : String) (names : List String) :
    name ∈ withoutRepeats names ↔ name ∈ names := by
  fun_induction withoutRepeats names with
  | case1 => rfl
  | case2 => rfl
  | case3 n rest ih => simp [ih]
  | case4 m n rest h ih => simp [ih]

/-- The names in increasing order, each once. -/
def sorted (names : List String) : List String := withoutRepeats (names.mergeSort fun m n => m ≤ n)

@[simp] theorem mem_sorted (name : String) (names : List String) : name ∈ sorted names ↔ name ∈ names := by
  simp [sorted]

end Names

/-- Whether one of two expressions assigns a name that the other reads or assigns. -/
def Expr.interferes (x y : Expr) : Bool :=
  Names.intersect x.writes y.reads || Names.intersect y.writes x.reads || Names.intersect x.writes y.writes

end TierCalc
