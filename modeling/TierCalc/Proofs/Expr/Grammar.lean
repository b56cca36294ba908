import Mathlib.Algebra.Group.Nat.Defs
import Mathlib.Data.List.Basic
import TierCalc.Expr.Basic
import TierCalc.Source.Token
import TierCalc.Text.Numeral

/-!
# The grammar of expressions

Which sequences of terminals spell which trees. A terminal is a token without its position, and the trees of the
grammar have unset positions.

* `Target` is a name, possibly in parentheses.
* `Derives value p ws e` says that `ws` spells `e` as a phrase of kind `p`, where `value` tells which number a literal
  stands for.
* `Sentence` is a whole expression, with or without a semicolon after it.

Operators of one tier group to the left. `Phrase.at` numbers the phrases by how tightly they hold together, and a phrase
that holds together more tightly is one of every looser kind (`Derives.widen`).
-/

namespace TierCalc

namespace Expr

mutual

def unplaced : Expr → Expr
  | int _ literal v => int default literal v
  | ident _ name => ident default name
  | binary l _ op r => binary l.unplaced default op r.unplaced
  | assign _ name _ v => assign default name default v.unplaced
  | call _ name _ args _ => call default name default (argsUnplaced args) default
  | cond _ _ c y n _ => cond default default c.unplaced y.unplaced n.unplaced default

def argsUnplaced : List Expr → List Expr
  | [] => []
  | a :: rest => a.unplaced :: argsUnplaced rest

end

theorem argsUnplaced_eq (args : List Expr) : argsUnplaced args = args.map unplaced := by
  induction args with
  | nil => rfl
  | cons a rest ih => rw [argsUnplaced, ih, List.map_cons]

end Expr

namespace Grammar

/-- The terminals of the grammar. A minus sign is the operator of subtraction, whichever way it is used. -/
inductive Terminal where
  | int (literal : String)
  | name (x : String)
  | op (o : Operator)
  | assign
  | comma
  | lparen
  | rparen
  | cond
  | semicolon
  | eof
deriving DecidableEq, Repr

/-- The kind of the tokens that a terminal stands for. -/
def Terminal.kind : Terminal → Token.Kind
  | int _ => .int
  | name _ => .ident
  | op .add => .plus
  | op .subtract => .minus
  | op .multiply => .star
  | op .divide => .slash
  | op .modulo => .percent
  | op .equal => .equal
  | op .notEqual => .notEqual
  | op .lessThan => .less
  | op .greaterThan => .greater
  | op .lessOrEqual => .lessEqual
  | op .greaterOrEqual => .greaterEqual
  | assign => .assign
  | comma => .comma
  | lparen => .lparen
  | rparen => .rparen
  | cond => .cond
  | semicolon => .semicolon
  | eof => .eof

/-- The terminal that a token stands for. -/
def Terminal.ofToken (t : Token) : Terminal :=
  match t.kind with
  | .int => int t.literal
  | .ident => name t.literal
  | .plus => op .add
  | .minus => op .subtract
  | .star => op .multiply
  | .slash => op .divide
  | .percent => op .modulo
  | .equal => op .equal
  | .notEqual => op .notEqual
  | .less => op .lessThan
  | .greater => op .greaterThan
  | .lessEqual => op .lessOrEqual
  | .greaterEqual => op .greaterOrEqual
  | .assign => assign
  | .comma => comma
  | .lparen => lparen
  | .rparen => rparen
  | .cond => cond
  | .semicolon => semicolon
  | .eof => eof

theorem Terminal.kind_ofToken (t : Token) : (ofToken t).kind = t.kind := by
  unfold ofToken
  split <;> simp_all [kind]

theorem Terminal.ofToken_eq_int {t : Token} {s : String} : ofToken t = int s ↔ t.kind = .int ∧ t.literal = s := by
  unfold ofToken
  split <;> simp_all

theorem Terminal.ofToken_eq_name {t : Token} {x : String} : ofToken t = name x ↔ t.kind = .ident ∧ t.literal = x := by
  unfold ofToken
  split <;> simp_all

/-- The tiers of binary operators, loosest first. -/
inductive Tier where
  | equality
  | order
  | sum
  | product
deriving DecidableEq, Repr

def tier : Operator → Tier
  | .equal | .notEqual => .equality
  | .lessThan | .greaterThan | .lessOrEqual | .greaterOrEqual => .order
  | .add | .subtract => .sum
  | .multiply | .divide | .modulo => .product

/-- The kinds of phrase: whole expressions, chains of the operators of a tier, operands with leading minus signs, calls,
and what needs no further parentheses. Each kind contains the next one. -/
inductive Phrase where
  | whole
  | chain (t : Tier)
  | signed
  | call
  | atom
deriving DecidableEq, Repr

/-- What the operators of a tier join: chains of the next tier, and operands with their signs at the end. -/
def Tier.operand : Tier → Phrase
  | equality => .chain .order
  | order => .chain .sum
  | sum => .chain .product
  | product => .signed

/-- The spellings of a name that is assigned to or called: the name itself, possibly in parentheses. -/
inductive Target : List Terminal → String → Prop
  | name (x : String) : Target [.name x] x
  | group {ws : List Terminal} {x : String} (h : Target ws x) : Target (.lparen :: (ws ++ [.rparen])) x

section

-- The number that a literal stands for.
variable (value : String → Option Int64)

/-- The spellings of trees as phrases of each kind. -/
inductive Derives : Phrase → List Terminal → Expr → Prop
  | assign {ts vs : List Terminal} {x : String} {v : Expr} (ht : Target ts x) (hv : Derives .whole vs v) :
      Derives .whole (ts ++ .assign :: vs) (.assign default x default v)
  | compared {ws : List Terminal} {e : Expr} (h : Derives (.chain .equality) ws e) : Derives .whole ws e
  | joined {ls rs : List Terminal} {l r : Expr} (o : Operator) (hl : Derives (.chain (tier o)) ls l)
      (hr : Derives (tier o).operand rs r) :
      Derives (.chain (tier o)) (ls ++ .op o :: rs) (.binary l default o.number r)
  | single {t : Tier} {ws : List Terminal} {e : Expr} (h : Derives t.operand ws e) : Derives (.chain t) ws e
  | negated {ws : List Terminal} {e : Expr} (h : Derives .signed ws e) :
      Derives .signed (.op .subtract :: ws) (.binary (.int default "0" 0) default Operator.subtract.number e)
  | unsigned {ws : List Terminal} {e : Expr} (h : Derives .call ws e) : Derives .signed ws e
  | call {ts : List Terminal} {x : String} (args : List (List Terminal × Expr)) (ht : Target ts x)
      (hargs : ∀ a ∈ args, Derives .whole a.1 a.2) :
      Derives .call (ts ++ .lparen :: ([Terminal.comma].intercalate (args.map (·.1)) ++ [.rparen]))
        (.call default x default (args.map (·.2)) default)
  | uncalled {ws : List Terminal} {e : Expr} (h : Derives .atom ws e) : Derives .call ws e
  | int {s : String} {v : Int64} (h : value s = some v) : Derives .atom [.int s] (.int default s v)
  | name (x : String) : Derives .atom [.name x] (.ident default x)
  | group {ws : List Terminal} {e : Expr} (h : Derives .whole ws e) : Derives .atom (.lparen :: (ws ++ [.rparen])) e
  | cond {cs ys ns : List Terminal} {c y n : Expr} (hc : Derives .whole cs c) (hy : Derives .whole ys y)
      (hn : Derives .whole ns n) :
      Derives .atom (.cond :: .lparen :: (cs ++ .comma :: (ys ++ .comma :: (ns ++ [.rparen]))))
        (.cond default default c y n default)

/-- The spellings of whole inputs: an expression with at most one semicolon after it. -/
inductive Sentence : List Terminal → Expr → Prop
  | plain {ws : List Terminal} {e : Expr} (h : Derives value .whole ws e) : Sentence ws e
  | closed {ws : List Terminal} {e : Expr} (h : Derives value .whole ws e) : Sentence (ws ++ [.semicolon]) e

end

/-- The number that a literal spells in base ten, as a word. -/
def word? (s : String) : Option Int64 := (Numeral.nat? 10 s).map Int64.ofNat

/-- The number that a literal spells is below `2 ^ 63`. -/
def InRange (s : String) : Prop := ∃ n, Numeral.nat? 10 s = some n ∧ n < 2 ^ 63

variable {value value' : String → Option Int64} {p : Phrase} {ws : List Terminal} {e : Expr}

/-! ### Separated lists -/

theorem intercalate_cons (c : Terminal) (first : List Terminal) (rest : List (List Terminal)) :
    [c].intercalate (first :: rest) = first ++ rest.flatMap (c :: ·) := by
  induction rest generalizing first with
  | nil => simp
  | cons next rest ih => simp [List.intercalate_cons_cons, ih]

theorem mem_intercalate {c w : Terminal} {lists : List (List Terminal)} (hw : w ≠ c) :
    w ∈ [c].intercalate lists ↔ ∃ l ∈ lists, w ∈ l := by
  cases lists with
  | nil => simp
  | cons first rest => simp [intercalate_cons, hw]

/-! ### Literals -/

theorem Target.int_notMem {x s : String} (h : Target ws x) : .int s ∉ ws := by
  induction h with
  | name x => simp
  | group _ ih => simpa using ih

theorem Derives.value_isSome (h : Derives value p ws e) {s : String} (hs : .int s ∈ ws) : (value s).isSome := by
  induction h with
  | assign ht _ ih => exact ih (by simpa [ht.int_notMem] using hs)
  | compared _ ih | single _ ih | unsigned _ ih | uncalled _ ih => exact ih hs
  | joined o _ _ ihl ihr =>
      rcases (by simpa using hs : _ ∨ _) with hs | hs
      · exact ihl hs
      · exact ihr hs
  | negated _ ih => exact ih (by simpa using hs)
  | call args ht _ ih =>
      have hs : .int s ∈ [Terminal.comma].intercalate (args.map (·.1)) := by simpa [ht.int_notMem] using hs
      obtain ⟨l, hl, hs⟩ := (mem_intercalate (by simp)).mp hs
      obtain ⟨a, ha, rfl⟩ := List.mem_map.mp hl
      exact ih a ha hs
  | int h =>
      obtain rfl : s = _ := by simpa using hs
      exact Option.isSome_of_eq_some h
  | name x => simp at hs
  | group _ ih => exact ih (by simpa using hs)
  | cond _ _ _ ihc ihy ihn =>
      rcases (by simpa using hs : _ ∨ _ ∨ _) with hs | hs | hs
      · exact ihc hs
      · exact ihy hs
      · exact ihn hs

/-- A phrase depends on the values of its own literals only. -/
theorem Derives.revalue (h : Derives value p ws e)
    (hvalue : ∀ s, .int s ∈ ws → ∀ v, value s = some v → value' s = some v) : Derives value' p ws e := by
  induction h with
  | assign ht _ ih => exact .assign ht (ih fun s hs => hvalue s (by simp [hs]))
  | compared _ ih => exact .compared (ih hvalue)
  | joined o _ _ ihl ihr =>
      exact .joined o (ihl fun s hs => hvalue s (by simp [hs])) (ihr fun s hs => hvalue s (by simp [hs]))
  | single _ ih => exact .single (ih hvalue)
  | negated _ ih => exact .negated (ih fun s hs => hvalue s (by simp [hs]))
  | unsigned _ ih => exact .unsigned (ih hvalue)
  | call args ht _ ih =>
      refine .call args ht fun a ha => ih a ha fun s hs => hvalue s ?_
      have hs : .int s ∈ [Terminal.comma].intercalate (args.map (·.1)) :=
        (mem_intercalate (by simp)).mpr ⟨a.1, List.mem_map_of_mem ha, hs⟩
      simp [hs]
  | uncalled _ ih => exact .uncalled (ih hvalue)
  | int h => exact .int (hvalue _ (by simp) _ h)
  | name x => exact .name x
  | group _ ih => exact .group (ih fun s hs => hvalue s (by simp [hs]))
  | cond _ _ _ ihc ihy ihn =>
      exact .cond (ihc fun s hs => hvalue s (by simp [hs])) (ihy fun s hs => hvalue s (by simp [hs]))
        (ihn fun s hs => hvalue s (by simp [hs]))

/-! ### Names -/

theorem Derives.target {x : String} (h : Derives value p ws (.ident default x)) : Target ws x := by
  generalize he : Expr.ident default x = e at h
  induction h with
  | name y => cases he; exact .name x
  | group _ ih => exact .group (ih he)
  | compared _ ih | single _ ih | unsigned _ ih | uncalled _ ih => exact ih he
  | _ => cases he

/-! ### Tightness -/

/-- How tightly the operators of a tier bind. -/
def Tier.level : Tier → Nat
  | equality => 3
  | order => 4
  | sum => 5
  | product => 6

/-- The phrases whose outermost operators bind at least as tightly as a level says. -/
def Phrase.at : Nat → Phrase
  | 0 | 1 | 2 => .whole
  | 3 => .chain .equality
  | 4 => .chain .order
  | 5 => .chain .sum
  | 6 => .chain .product
  | _ => .signed

theorem Phrase.at_level (t : Tier) : Phrase.at t.level = .chain t := by
  cases t <;> rfl

theorem Phrase.at_level_succ (t : Tier) : Phrase.at (t.level + 1) = t.operand := by
  cases t <;> rfl

theorem Derives.loosen {m : Nat} (h : Derives value (.at (m + 1)) ws e) : Derives value (.at m) ws e := by
  match m, h with
  | 0, h | 1, h => exact h
  | 2, h => exact .compared h
  | 3, h | 4, h | 5, h | 6, h => exact .single h
  | _ + 7, h => exact h

/-- A phrase that holds together more tightly is a looser one too. -/
theorem Derives.widen {m n : Nat} (h : Derives value (.at n) ws e) (hmn : m ≤ n) : Derives value (.at m) ws e := by
  induction hmn with
  | refl => exact h
  | step _ ih => exact ih h.loosen

theorem level_kind_op (o : Operator) : (Terminal.op o).kind.level = (tier o).level := by
  cases o <;> rfl

end Grammar

end TierCalc
