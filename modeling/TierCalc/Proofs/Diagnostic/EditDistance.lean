import Mathlib.Data.List.Basic
import Mathlib.Data.List.Induction
import Mathlib.Order.Bounds.Basic
import Mathlib.Order.MinMax
import TierCalc.Diagnostic.EditDistance

/-!
# Edit distance is the least number of edits

An edit inserts, deletes or replaces one element at any place. The distance of two lists is the least number of edits
that lead from the one to the other.

* `Aligned` is the same in a normal form: the edits are made from left to right, each element is touched once. What
  edits can do, an alignment can do with no more of them (`exists_aligned`).
* `Least.extend`: how the least alignment of two lists comes from those of their beginnings. This is the rule for one
  entry of a row.
* `isLeast_distance`: the rows lead to the least number.
-/

namespace TierCalc.EditDistance

variable {α : Type}

/-! ### Edits -/

/-- One edit. -/
inductive Edit : List α → List α → Prop
  | insert (u v : List α) (y : α) : Edit (u ++ v) (u ++ y :: v)
  | delete (u v : List α) (x : α) : Edit (u ++ x :: v) (u ++ v)
  | replace (u v : List α) (x y : α) : Edit (u ++ x :: v) (u ++ y :: v)

/-- A number of edits that lead from one list to another. -/
inductive Edits : Nat → List α → List α → Prop
  | none (a : List α) : Edits 0 a a
  | more {n : Nat} {a b c : List α} (h : Edits n a b) (e : Edit b c) : Edits (n + 1) a c

section
variable {n m : Nat} {a b c : List α}

theorem Edit.symm (h : Edit a b) : Edit b a := by
  cases h with
  | insert u v y => exact .delete u v y
  | delete u v x => exact .insert u v x
  | replace u v x y => exact .replace u v y x

theorem Edit.append_right (h : Edit a b) (w : List α) : Edit (a ++ w) (b ++ w) := by
  cases h with
  | insert u v y =>
      rw [List.append_assoc, List.append_assoc]
      exact .insert u (v ++ w) y
  | delete u v x =>
      rw [List.append_assoc, List.append_assoc]
      exact .delete u (v ++ w) x
  | replace u v x y =>
      rw [List.append_assoc, List.append_assoc]
      exact .replace u (v ++ w) x y

namespace Edits

theorem trans (h : Edits n a b) (h' : Edits m b c) : Edits (n + m) a c := by
  induction h' with
  | none _ => exact h
  | more _ e ih => exact .more (ih h) e

theorem symm (h : Edits n a b) : Edits n b a := by
  induction h with
  | none a => exact .none a
  | @more n a b c h e ih =>
      have hstep : Edits 1 c b := .more (.none c) e.symm
      rw [Nat.add_comm]
      exact hstep.trans ih

theorem append_right (h : Edits n a b) (w : List α) : Edits n (a ++ w) (b ++ w) := by
  induction h with
  | none a => exact .none _
  | more _ e ih => exact .more ih (e.append_right w)

end Edits

end

/-! ### Alignments -/

/-- Edits in order from left to right, one for each element that is not kept. -/
inductive Aligned : Nat → List α → List α → Prop
  | nil : Aligned 0 [] []
  | keep {n : Nat} {a b : List α} (h : Aligned n a b) (x : α) : Aligned n (a ++ [x]) (b ++ [x])
  | replace {n : Nat} {a b : List α} (h : Aligned n a b) (x y : α) : Aligned (n + 1) (a ++ [x]) (b ++ [y])
  | delete {n : Nat} {a b : List α} (h : Aligned n a b) (x : α) : Aligned (n + 1) (a ++ [x]) b
  | insert {n : Nat} {a b : List α} (h : Aligned n a b) (y : α) : Aligned (n + 1) a (b ++ [y])

namespace Aligned

variable {n m : Nat} {a b c d : List α}

theorem edits (h : Aligned n a b) : Edits n a b := by
  induction h with
  | nil => exact .none []
  | keep _ x ih => exact ih.append_right [x]
  | @replace n a b _ x y ih => exact .more (ih.append_right [x]) (.replace b [] x y)
  | @delete n a b _ x ih =>
      have hlast : Edit (b ++ [x]) (b ++ []) := .delete b [] x
      rw [List.append_nil] at hlast
      exact .more (ih.append_right [x]) hlast
  | @insert n a b _ y ih =>
      have hlast : Edit (b ++ []) (b ++ [y]) := .insert b [] y
      rw [List.append_nil] at hlast
      exact .more ih hlast

theorem refl (a : List α) : Aligned 0 a a := by
  induction a using List.reverseRecOn with
  | nil => exact .nil
  | append_singleton a x ih => exact .keep ih x

theorem append (h : Aligned n a b) (h' : Aligned m c d) : Aligned (n + m) (a ++ c) (b ++ d) := by
  induction h' with
  | nil => simpa using h
  | keep _ x ih =>
      rw [← List.append_assoc, ← List.append_assoc]
      exact .keep ih x
  | replace _ x y ih =>
      rw [← List.append_assoc, ← List.append_assoc]
      exact .replace ih x y
  | delete _ x ih =>
      rw [← List.append_assoc]
      exact .delete ih x
  | insert _ y ih =>
      rw [← List.append_assoc]
      exact .insert ih y

theorem eq_nil_or_of_append {u v : List α} {x : α} (h : u ++ v = b ++ [x]) :
    v = [] ∧ u = b ++ [x] ∨ ∃ v', v = v' ++ [x] ∧ u ++ v' = b := by
  rcases List.eq_nil_or_concat' v with rfl | ⟨v', y, rfl⟩
  · exact .inl ⟨rfl, by simpa using h⟩
  · rw [← List.append_assoc] at h
    obtain ⟨hb, hy⟩ := List.append_inj' h rfl
    exact .inr ⟨v', by rw [hy], hb⟩

/-- An alignment with a list in two parts aligns something with each part. -/
theorem split {u v : List α} (h : Aligned n a (u ++ v)) :
    ∃ n₁ n₂ a₁ a₂, n = n₁ + n₂ ∧ a = a₁ ++ a₂ ∧ Aligned n₁ a₁ u ∧ Aligned n₂ a₂ v := by
  generalize hb : u ++ v = b at h
  induction h generalizing u v with
  | nil =>
      obtain ⟨rfl, rfl⟩ := List.append_eq_nil_iff.mp hb
      exact ⟨0, 0, [], [], rfl, rfl, .nil, .nil⟩
  | keep h x ih =>
      obtain ⟨rfl, rfl⟩ | ⟨v', rfl, hv⟩ := eq_nil_or_of_append hb
      · exact ⟨_, 0, _, [], rfl, (List.append_nil _).symm, .keep h x, .nil⟩
      · obtain ⟨n₁, n₂, a₁, a₂, rfl, rfl, h₁, h₂⟩ := ih hv
        exact ⟨n₁, n₂, a₁, a₂ ++ [x], rfl, List.append_assoc _ _ _, h₁, .keep h₂ x⟩
  | replace h x y ih =>
      obtain ⟨rfl, rfl⟩ | ⟨v', rfl, hv⟩ := eq_nil_or_of_append hb
      · exact ⟨_, 0, _, [], rfl, (List.append_nil _).symm, .replace h x y, .nil⟩
      · obtain ⟨n₁, n₂, a₁, a₂, rfl, rfl, h₁, h₂⟩ := ih hv
        exact ⟨n₁, n₂ + 1, a₁, a₂ ++ [x], rfl, List.append_assoc _ _ _, h₁, .replace h₂ x y⟩
  | delete h x ih =>
      obtain ⟨n₁, n₂, a₁, a₂, rfl, rfl, h₁, h₂⟩ := ih hb
      exact ⟨n₁, n₂ + 1, a₁, a₂ ++ [x], rfl, List.append_assoc _ _ _, h₁, .delete h₂ x⟩
  | insert h y ih =>
      obtain ⟨rfl, rfl⟩ | ⟨v', rfl, hv⟩ := eq_nil_or_of_append hb
      · exact ⟨_, 0, _, [], rfl, (List.append_nil _).symm, .insert h y, .nil⟩
      · obtain ⟨n₁, n₂, a₁, a₂, rfl, rfl, h₁, h₂⟩ := ih hv
        exact ⟨n₁, n₂ + 1, a₁, a₂, rfl, rfl, h₁, .insert h₂ y⟩

/-- An edit of the last element, given by what becomes of it with a partner and alone. -/
theorem edit_last {u w : List α} {y : α} (h : Aligned n a (u ++ [y]))
    (hpair : ∀ {m : Nat} {c : List α}, Aligned m c u → ∀ x, Aligned (m + 1) (c ++ [x]) w)
    (halone : ∀ {m : Nat} {c : List α}, Aligned m c u → ∃ k ≤ m + 1, Aligned k c w) :
    ∃ k ≤ n + 1, Aligned k a w := by
  generalize hb : u ++ [y] = b at h
  induction h with
  | nil => simp at hb
  | keep h x ih =>
      obtain ⟨rfl, -⟩ := List.append_inj' hb rfl
      exact ⟨_, Nat.le_refl _, hpair h x⟩
  | replace h x y ih =>
      obtain ⟨rfl, -⟩ := List.append_inj' hb rfl
      exact ⟨_, Nat.le_succ _, hpair h x⟩
  | delete h x ih =>
      obtain ⟨k, hk, hw⟩ := ih hb
      exact ⟨k + 1, Nat.succ_le_succ hk, .delete hw x⟩
  | insert h y ih =>
      obtain ⟨rfl, -⟩ := List.append_inj' hb rfl
      obtain ⟨k, hk, hw⟩ := halone h
      exact ⟨k, Nat.le_succ_of_le hk, hw⟩

/-- One edit more is worth at most one more step of an alignment. -/
theorem edit (h : Aligned n a b) (e : Edit b c) : ∃ k ≤ n + 1, Aligned k a c := by
  cases e with
  | insert u v y =>
      obtain ⟨n₁, n₂, a₁, a₂, rfl, rfl, h₁, h₂⟩ := h.split
      have hall := (Aligned.insert h₁ y).append h₂
      rw [List.append_assoc] at hall
      exact ⟨_, by omega, hall⟩
  | delete u v x =>
      have hx : u ++ x :: v = (u ++ [x]) ++ v := by simp
      rw [hx] at h
      obtain ⟨n₁, n₂, a₁, a₂, rfl, rfl, h₁, h₂⟩ := h.split
      obtain ⟨k, hk, hlast⟩ := h₁.edit_last .delete fun h => ⟨_, Nat.le_succ _, h⟩
      exact ⟨_, by omega, hlast.append h₂⟩
  | replace u v x y =>
      have hx : u ++ x :: v = (u ++ [x]) ++ v := by simp
      rw [hx] at h
      obtain ⟨n₁, n₂, a₁, a₂, rfl, rfl, h₁, h₂⟩ := h.split
      obtain ⟨k, hk, hlast⟩ := h₁.edit_last (fun h x => .replace h x y) fun h => ⟨_, Nat.le_refl _, .insert h y⟩
      have hall := hlast.append h₂
      rw [List.append_assoc] at hall
      exact ⟨_, by omega, hall⟩

/-- What becomes of the last elements of both lists. -/
theorem last_cases {x y : α} (h : Aligned n (a ++ [x]) (b ++ [y])) :
    x = y ∧ Aligned n a b ∨ ∃ m, n = m + 1 ∧ (Aligned m a b ∨ Aligned m a (b ++ [y]) ∨ Aligned m (a ++ [x]) b) := by
  generalize ha : a ++ [x] = a', hb : b ++ [y] = b' at h
  cases h with
  | nil => simp at ha
  | keep h z =>
      obtain ⟨rfl, hx⟩ := List.append_inj' ha rfl
      obtain ⟨rfl, hy⟩ := List.append_inj' hb rfl
      exact .inl ⟨List.cons.inj (hx.trans hy.symm) |>.1, h⟩
  | @replace m _ _ h _ _ =>
      obtain ⟨rfl, -⟩ := List.append_inj' ha rfl
      obtain ⟨rfl, -⟩ := List.append_inj' hb rfl
      exact .inr ⟨m, rfl, .inl h⟩
  | @delete m _ _ h _ =>
      obtain ⟨rfl, -⟩ := List.append_inj' ha rfl
      exact .inr ⟨m, rfl, .inr (.inl h)⟩
  | @insert m _ _ h _ =>
      obtain ⟨rfl, -⟩ := List.append_inj' hb rfl
      exact .inr ⟨m, rfl, .inr (.inr h)⟩

theorem length_le (h : Aligned n a b) : b.length ≤ a.length + n ∧ a.length ≤ b.length + n := by
  induction h with
  | nil => exact ⟨Nat.le_refl _, Nat.le_refl _⟩
  | keep _ _ ih | replace _ _ _ ih | delete _ _ ih | insert _ _ ih =>
      simp only [List.length_append, List.length_singleton]
      omega

end Aligned

/-- Edits in any order are worth an alignment. -/
theorem Edits.exists_aligned {n : Nat} {a b : List α} (h : Edits n a b) : ∃ k ≤ n, Aligned k a b := by
  induction h with
  | none a => exact ⟨0, Nat.le_refl 0, .refl a⟩
  | more _ e ih =>
      obtain ⟨k, hk, hb⟩ := ih
      obtain ⟨m, hm, hc⟩ := hb.edit e
      exact ⟨m, by omega, hc⟩

/-! ### Least alignments -/

/-- The least number of steps of an alignment. -/
def Least (a b : List α) (n : Nat) : Prop := Aligned n a b ∧ ∀ m, Aligned m a b → n ≤ m

theorem Least.isLeast {a b : List α} {n : Nat} (h : Least a b n) : IsLeast {m | Edits m a b} n := by
  constructor
  · exact h.1.edits
  · intro m hm
    obtain ⟨k, hk, hb⟩ := hm.exists_aligned
    exact Nat.le_trans (h.2 k hb) hk

theorem least_nil_left (b : List α) : Least [] b b.length := by
  constructor
  · induction b using List.reverseRecOn with
    | nil => exact .nil
    | append_singleton b y ih =>
        rw [List.length_append]
        exact .insert ih y
  · intro m hm
    simpa using hm.length_le.1

theorem least_nil_right (a : List α) : Least a [] a.length := by
  constructor
  · induction a using List.reverseRecOn with
    | nil => exact .nil
    | append_singleton a x ih =>
        rw [List.length_append]
        exact .delete ih x
  · intro m hm
    simpa using hm.length_le.2

/-- The rule for one entry: it comes from the entries above, to the left and on the diagonal. -/
theorem Least.extend [DecidableEq α] {a b : List α} {x c : α} {up left diagonal : Nat} (hup : Least (a ++ [x]) b up)
    (hleft : Least a (b ++ [c]) left) (hdiagonal : Least a b diagonal) :
    Least (a ++ [x]) (b ++ [c]) (min (min (up + 1) (left + 1)) (diagonal + if x = c then 0 else 1)) := by
  have hboth : Aligned (diagonal + if x = c then 0 else 1) (a ++ [x]) (b ++ [c]) := by
    split_ifs with h
    · exact h ▸ hdiagonal.1.keep x
    · exact hdiagonal.1.replace x c
  constructor
  · rcases min_choice (min (up + 1) (left + 1)) (diagonal + if x = c then 0 else 1) with h | h
    · rw [h]
      rcases min_choice (up + 1) (left + 1) with h | h
      · rw [h]
        exact hup.1.insert c
      · rw [h]
        exact hleft.1.delete x
    · rw [h]
      exact hboth
  · intro m hm
    obtain ⟨rfl, h⟩ | ⟨m, rfl, h | h | h⟩ := hm.last_cases
    · have hle := hdiagonal.2 m h
      rw [if_pos rfl]
      omega
    · have hle := hdiagonal.2 m h
      split_ifs <;> omega
    · have hle := hleft.2 m h
      omega
    · have hle := hup.2 m h
      omega

/-! ### Rows -/

/-- Whether entries are the least numbers of steps from `pre`, extended by one more element of `xs` each time, to
`b`. -/
inductive Row (b : List α) : (pre xs : List α) → List Nat → Prop
  | nil (pre : List α) : Row b pre [] []
  | cons {pre xs : List α} {x : α} {v : Nat} {vs : List Nat} (h : Least (pre ++ [x]) b v)
      (hrest : Row b (pre ++ [x]) xs vs) : Row b pre (x :: xs) (v :: vs)

section
variable {b pre xs : List α} {d : Nat} {vs : List Nat}

theorem row_nil (pre xs : List α) : Row [] pre xs (List.range' (pre.length + 1) xs.length) := by
  induction xs generalizing pre with
  | nil => exact .nil pre
  | cons x xs ih =>
      have hlength : (pre ++ [x]).length = pre.length + 1 := List.length_append
      have hrest := ih (pre ++ [x])
      rw [hlength] at hrest
      refine .cons ?_ hrest
      rw [← hlength]
      exact least_nil_right _

/-- A row is kept when `b` grows by one element. -/
theorem Row.entries [DecidableEq α] {c : α} {left : Nat} (h : Row b pre xs vs) (hdiagonal : Least pre b d)
    (hleft : Least pre (b ++ [c]) left) : Row (b ++ [c]) pre xs (entries c xs d vs left) := by
  induction h generalizing d left with
  | nil pre => exact .nil pre
  | cons hup _ ih =>
      have hentry := hup.extend hleft hdiagonal
      exact .cons hentry (ih hup hentry)

theorem Row.getLastD (h : Row b pre xs vs) (hd : Least pre b d) : Least (pre ++ xs) b ((d :: vs).getLastD 0) := by
  induction h generalizing d with
  | nil pre => simpa using hd
  | cons hup _ ih => simpa using ih hup

end

variable [DecidableEq α]

/-- The rows of longer and longer lists, one from the other. -/
theorem row_foldl {a b : List α} {vs : List Nat} (h : Row b [] a vs) (cs : List α) :
    ∃ vs', cs.foldl (nextRow a) (b.length :: vs) = (b ++ cs).length :: vs' ∧ Row (b ++ cs) [] a vs' := by
  induction cs generalizing b vs with
  | nil => exact ⟨vs, by simp, by simpa using h⟩
  | cons c cs ih =>
      have hlength : (b ++ [c]).length = b.length + 1 := List.length_append
      have hnext := h.entries (least_nil_left b) (least_nil_left (b ++ [c]))
      obtain ⟨vs', hfold, hrow⟩ := ih hnext
      rw [hlength] at hfold
      rw [List.append_assoc] at hfold hrow
      exact ⟨vs', hfold, hrow⟩

theorem least_lastEntry (a b : List α) : Least a b (lastEntry a b) := by
  obtain ⟨vs, hfold, hrow⟩ := row_foldl (row_nil [] a) b
  have hfirst : firstRow a = 0 :: List.range' 1 a.length := by
    rw [firstRow, List.range_eq_range', List.range'_succ]
  have hlast : lastEntry a b = (b.length :: vs).getLastD 0 := by
    rw [lastEntry, hfirst]
    exact congrArg (·.getLastD 0) hfold
  rw [hlast]
  exact hrow.getLastD (least_nil_left b)

/-- The distance is the least number of edits, whichever list the rows are made for. -/
theorem isLeast_distance (a b : List α) : IsLeast {n | Edits n a b} (distance a b) := by
  unfold distance
  split_ifs
  · have hback : {n | Edits n a b} = {n | Edits n b a} := Set.ext fun _ => ⟨Edits.symm, Edits.symm⟩
    rw [hback]
    exact (least_lastEntry b a).isLeast
  · exact (least_lastEntry a b).isLeast

theorem distance_comm (a b : List α) : distance a b = distance b a := by
  have hle (a b : List α) : distance a b ≤ distance b a := (isLeast_distance a b).2 (isLeast_distance b a).1.symm
  exact Nat.le_antisymm (hle a b) (hle b a)

end TierCalc.EditDistance
