import Mathlib.Data.List.Basic
import TierCalc.Profile.Fingerprint
import TierCalc.Proofs.Expr.Induction

/-!
# The shape of an expression

What is left of an expression without its positions and the spelling of its literals. Two expressions are structurally
the same if they have the same shape: they read and assign the same names, and have the same code.
-/

namespace TierCalc.Expr

mutual

/-- The expression without positions and spellings. -/
def shape : Expr → Expr
  | int _ _ v => int default "" v
  | ident _ name => ident default name
  | binary l _ op r => binary l.shape default op r.shape
  | assign _ name _ v => assign default name default v.shape
  | call _ name _ args _ => call default name default (argShapes args) default
  | cond _ _ c y n _ => cond default default c.shape y.shape n.shape default

/-- The arguments without positions and spellings. -/
def argShapes : List Expr → List Expr
  | [] => []
  | a :: rest => a.shape :: argShapes rest

end

theorem argShapes_eq (args : List Expr) : argShapes args = args.map shape := by
  induction args with
  | nil => rfl
  | cons a rest ih => rw [argShapes, ih, List.map_cons]

@[simp] theorem reads_shape (e : Expr) : e.shape.reads = e.reads := by
  induction e using nodeInduction with
  | int => rfl
  | ident => rfl
  | binary l _ _ r ihl ihr => rw [shape, reads_binary, reads_binary, ihl, ihr]
  | assign _ _ _ v ih => rw [shape, reads_assign, reads_assign, ih]
  | call _ _ _ args _ ih =>
      rw [shape, reads_call, reads_call, argShapes_eq, List.flatMap_map]
      exact List.flatMap_congr ih
  | cond _ _ c y n _ ihc ihy ihn => rw [shape, reads_cond, reads_cond, ihc, ihy, ihn]

@[simp] theorem writes_shape (e : Expr) : e.shape.writes = e.writes := by
  induction e using nodeInduction with
  | int => rfl
  | ident => rfl
  | binary l _ _ r ihl ihr => rw [shape, writes_binary, writes_binary, ihl, ihr]
  | assign _ _ _ v ih => rw [shape, writes_assign, writes_assign, ih]
  | call _ _ _ args _ ih =>
      rw [shape, writes_call, writes_call, argShapes_eq, List.flatMap_map]
      exact List.flatMap_congr ih
  | cond _ _ c y n _ ihc ihy ihn => rw [shape, writes_cond, writes_cond, ihc, ihy, ihn]

@[simp] theorem callFree_shape (e : Expr) : e.shape.callFree = e.callFree := by
  induction e using nodeInduction with
  | int => rfl
  | ident => rfl
  | binary l _ _ r ihl ihr => rw [shape, callFree, callFree, ihl, ihr]
  | assign _ _ _ v ih => rw [shape, callFree, callFree, ih]
  | call => rfl
  | cond _ _ c y n _ ihc ihy ihn => rw [shape, callFree, callFree, ihc, ihy, ihn]

theorem encodeArgs_eq (args : List Expr) : encodeArgs args = args.flatMap encode := by
  induction args with
  | nil => rfl
  | cons a rest ih => rw [encodeArgs, ih, List.flatMap_cons]

theorem encode_shape (e : Expr) : e.shape.encode = e.encode := by
  induction e using nodeInduction with
  | int => rfl
  | ident => rfl
  | binary l _ _ r ihl ihr => rw [shape, encode, encode, ihl, ihr]
  | assign _ _ _ v ih => rw [shape, encode, encode, ih]
  | call _ _ _ args _ ih =>
      rw [shape, encode, encode, argShapes_eq, encodeArgs_eq, encodeArgs_eq, List.flatMap_map, List.length_map,
        List.flatMap_congr ih]
  | cond _ _ c y n _ ihc ihy ihn => rw [shape, encode, encode, ihc, ihy, ihn]

theorem fingerprint_shape (e : Expr) : e.shape.fingerprint = e.fingerprint := by
  rw [fingerprint_eq, fingerprint_eq, encode_shape]

@[simp] theorem interferes_shape (x y : Expr) : x.shape.interferes y.shape = x.interferes y := by
  simp [interferes]

end TierCalc.Expr
