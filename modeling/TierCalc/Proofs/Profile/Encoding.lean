import Mathlib.Data.List.Infix
import TierCalc.Proofs.Expr.Shape
import TierCalc.Proofs.Text.Bytes
import TierCalc.Proofs.X64.Codec

/-!
# Encodings tell structures apart

The bytes that a fingerprint is the hash of have no separators: tags, words of eight bytes, lengths and names stand one
after another. They are told apart nevertheless, whatever bytes follow.

* `Delimits write a`: bytes that start with the encoding of `a` start with that of nothing else. Words, lengths and
  names with their length in front have this property (`delimits_word`, `delimits_uvarint`, `delimits_name`).
* `Skeleton` is what the encoding shows of an expression. A name is any byte string there, also one that is no text.
* `delimits_skeleton`: so has the encoding of a skeleton. That of an expression is the one of its skeleton
  (`Expr.encode_skeleton`), and two expressions have one skeleton if they have one shape (`Expr.skeleton_eq_iff`).
-/

namespace TierCalc

/-! ### Bytes that end by themselves -/

/-- Whether bytes that start with what is written for `a` tell that it was `a`, and what follows. -/
def Delimits {α : Type} (write : α → Bytes) (a : α) : Prop := ∀ b t u, write a ++ t = write b ++ u → a = b ∧ t = u

/-- What is written for one value is a prefix of what is written for another only if the two are the same. -/
theorem Delimits.prefix_iff {α : Type} {write : α → Bytes} {a b : α} (h : Delimits write a) :
    write a <+: write b ↔ a = b := by
  constructor
  · rintro ⟨t, ht⟩
    have heq : write a ++ t = write b ++ [] := by rw [ht, List.append_nil]
    exact (h b t [] heq).1
  · rintro rfl
    exact List.prefix_rfl

theorem delimits_word (v : Int64) : Delimits (fun v : Int64 => Bytes.le64 v.toUInt64) v := by
  intro w t u h
  have hread : Except.ok (v, t) = (Except.ok (w, u) : Except X64.DecodeFault _) := by
    rw [← X64.Decode.wideField_le64, ← X64.Decode.wideField_le64]
    exact congrArg X64.Decode.wideField h
  exact Prod.mk.inj (Except.ok.inj hread)

theorem toUInt8_inj {a b : Nat} (ha : a < 256) (hb : b < 256) (h : a.toUInt8 = b.toUInt8) : a = b := by
  have hnat := congrArg UInt8.toNat h
  simpa [Nat.mod_eq_of_lt ha, Nat.mod_eq_of_lt hb] using hnat

theorem uvarint_cases (n : Nat) :
    (n < 128 ∧ Fingerprint.uvarint n = [n.toUInt8]) ∨
      128 ≤ n ∧ Fingerprint.uvarint n = (n % 128 + 128).toUInt8 :: Fingerprint.uvarint (n / 128) := by
  by_cases hn : n < 128
  · exact .inl ⟨hn, by rw [Fingerprint.uvarint, if_pos hn]⟩
  · exact .inr ⟨by omega, by rw [Fingerprint.uvarint, if_neg hn]⟩

/-- Numbers are told apart: only their last group is below 128. -/
theorem delimits_uvarint (m : Nat) : Delimits Fingerprint.uvarint m := by
  intro n t u h
  -- The induction is on the groups of `m`; the first byte says whether `n` has as many.
  induction m using Fingerprint.uvarint.induct generalizing n with
  | case1 m hm =>
      rw [Fingerprint.uvarint, if_pos hm] at h
      rcases uvarint_cases n with ⟨hn, hwritten⟩ | ⟨hn, hwritten⟩
      · rw [hwritten] at h
        obtain ⟨hhead, htail⟩ := List.cons.inj h
        exact ⟨toUInt8_inj (by omega) (by omega) hhead, htail⟩
      · rw [hwritten] at h
        have hgroup := toUInt8_inj (by omega) (by omega) (List.cons.inj h).1
        omega
  | case2 m hm ih =>
      rw [Fingerprint.uvarint, if_neg hm] at h
      rcases uvarint_cases n with ⟨hn, hwritten⟩ | ⟨hn, hwritten⟩
      · rw [hwritten] at h
        have hgroup := toUInt8_inj (by omega) (by omega) (List.cons.inj h).1
        omega
      · rw [hwritten] at h
        obtain ⟨hhead, htail⟩ := List.cons.inj h
        have hgroup := toUInt8_inj (by omega) (by omega) hhead
        obtain ⟨habove, rfl⟩ := ih (n / 128) htail
        refine ⟨?_, rfl⟩
        omega

def writeName (name : Bytes) : Bytes := Fingerprint.uvarint name.length ++ name

/-- Names are told apart by their lengths, whatever bytes they have. -/
theorem delimits_name (name : Bytes) : Delimits writeName name := by
  intro other t u h
  rw [writeName, writeName, List.append_assoc, List.append_assoc] at h
  obtain ⟨hlength, hrest⟩ := delimits_uvarint _ _ _ _ h
  exact List.append_inj hrest hlength

/-! ### Skeletons -/

/-- What the encoding shows of an expression: kinds of node, operators, values, names as bytes, and nesting. -/
inductive Skeleton where
  | int (value : Int64)
  | ident (name : Bytes)
  | binary (op : UInt8) (left right : Skeleton)
  | assign (name : Bytes) (value : Skeleton)
  | call (name : Bytes) (args : List Skeleton)
  | cond (test yes no : Skeleton)

namespace Skeleton

mutual

def encode : Skeleton → Bytes
  | int v => 1 :: Bytes.le64 v.toUInt64
  | ident name => 2 :: writeName name
  | binary op l r => 3 :: op :: (l.encode ++ r.encode)
  | assign name v => 4 :: (writeName name ++ v.encode)
  | call name args => 5 :: (writeName name ++ (Fingerprint.uvarint args.length ++ encodeArgs args))
  | cond c y n => 6 :: (c.encode ++ (y.encode ++ n.encode))

def encodeArgs : List Skeleton → Bytes
  | [] => []
  | a :: rest => a.encode ++ encodeArgs rest

end

@[elab_as_elim]
theorem nodeInduction {motive : Skeleton → Prop} (int : ∀ value, motive (int value))
    (ident : ∀ name, motive (ident name))
    (binary : ∀ op left right, motive left → motive right → motive (binary op left right))
    (assign : ∀ name value, motive value → motive (assign name value))
    (call : ∀ name args, (∀ a ∈ args, motive a) → motive (call name args))
    (cond : ∀ test yes no, motive test → motive yes → motive no → motive (cond test yes no)) (s : Skeleton) :
    motive s :=
  @Skeleton.rec motive (fun args => ∀ a ∈ args, motive a) int ident binary assign call cond
    (fun _ h => absurd h List.not_mem_nil)
    (fun _ _ ha hrest b hb => (List.mem_cons.mp hb).elim (fun h => h ▸ ha) (hrest b)) s

/-- Arguments are told apart if each of them is, and there are as many. -/
theorem encodeArgs_append {args others : List Skeleton} (hargs : ∀ a ∈ args, Delimits encode a)
    (hlength : args.length = others.length) {t u : Bytes} (h : encodeArgs args ++ t = encodeArgs others ++ u) :
    args = others ∧ t = u := by
  induction args generalizing others with
  | nil =>
      obtain rfl := List.length_eq_zero_iff.mp hlength.symm
      exact ⟨rfl, h⟩
  | cons a args ih =>
      cases others with
      | nil => cases hlength
      | cons b others =>
          rw [encodeArgs, encodeArgs, List.append_assoc, List.append_assoc] at h
          obtain ⟨rfl, hrest⟩ := hargs a List.mem_cons_self _ _ _ h
          obtain ⟨rfl, rfl⟩ := ih (fun x hx => hargs x (List.mem_cons_of_mem a hx)) (Nat.succ.inj hlength) hrest
          exact ⟨rfl, rfl⟩

end Skeleton

/-- Skeletons are told apart. -/
theorem delimits_skeleton (s : Skeleton) : Delimits Skeleton.encode s := by
  induction s using Skeleton.nodeInduction with
  | int v =>
      intro b t u h
      cases b with
      | int w =>
          obtain ⟨-, h⟩ := List.cons.inj h
          obtain ⟨rfl, rfl⟩ := delimits_word v w t u h
          exact ⟨rfl, rfl⟩
      | _ => simp [Skeleton.encode] at h
  | ident name =>
      intro b t u h
      cases b with
      | ident other =>
          obtain ⟨-, h⟩ := List.cons.inj h
          obtain ⟨rfl, rfl⟩ := delimits_name name other t u h
          exact ⟨rfl, rfl⟩
      | _ => simp [Skeleton.encode] at h
  | binary op l r ihl ihr =>
      intro b t u h
      cases b with
      | binary op' l' r' =>
          simp only [Skeleton.encode, List.cons_append, List.append_assoc, List.cons.injEq, true_and] at h
          obtain ⟨rfl, hleft⟩ := h
          obtain ⟨rfl, hright⟩ := ihl _ _ _ hleft
          obtain ⟨rfl, rfl⟩ := ihr _ _ _ hright
          exact ⟨rfl, rfl⟩
      | _ => simp [Skeleton.encode] at h
  | assign name v ih =>
      intro b t u h
      cases b with
      | assign other w =>
          simp only [Skeleton.encode, List.cons_append, List.append_assoc, List.cons.injEq, true_and] at h
          obtain ⟨rfl, hvalue⟩ := delimits_name _ _ _ _ h
          obtain ⟨rfl, rfl⟩ := ih _ _ _ hvalue
          exact ⟨rfl, rfl⟩
      | _ => simp [Skeleton.encode] at h
  | call name args ih =>
      intro b t u h
      cases b with
      | call other args' =>
          simp only [Skeleton.encode, List.cons_append, List.append_assoc, List.cons.injEq, true_and] at h
          obtain ⟨rfl, hcount⟩ := delimits_name _ _ _ _ h
          obtain ⟨hlength, hargs⟩ := delimits_uvarint _ _ _ _ hcount
          obtain ⟨rfl, rfl⟩ := Skeleton.encodeArgs_append ih hlength hargs
          exact ⟨rfl, rfl⟩
      | _ => simp [Skeleton.encode] at h
  | cond c y n ihc ihy ihn =>
      intro b t u h
      cases b with
      | cond c' y' n' =>
          simp only [Skeleton.encode, List.cons_append, List.append_assoc, List.cons.injEq, true_and] at h
          obtain ⟨rfl, hyes⟩ := ihc _ _ _ h
          obtain ⟨rfl, hno⟩ := ihy _ _ _ hyes
          obtain ⟨rfl, rfl⟩ := ihn _ _ _ hno
          exact ⟨rfl, rfl⟩
      | _ => simp [Skeleton.encode] at h

/-! ### Names of expressions -/

namespace Expr

theorem encodeName_eq (name : String) : encodeName name = writeName (Bytes.ofString name) := by
  rw [encodeName, writeName, Bytes.length_ofString]

mutual

/-- What the encoding shows of an expression. -/
def skeleton : Expr → Skeleton
  | int _ _ v => .int v
  | ident _ name => .ident (Bytes.ofString name)
  | binary l _ op r => .binary op l.skeleton r.skeleton
  | assign _ name _ v => .assign (Bytes.ofString name) v.skeleton
  | call _ name _ args _ => .call (Bytes.ofString name) (argSkeletons args)
  | cond _ _ c y n _ => .cond c.skeleton y.skeleton n.skeleton

/-- What the encoding shows of arguments. -/
def argSkeletons : List Expr → List Skeleton
  | [] => []
  | a :: rest => a.skeleton :: argSkeletons rest

end

theorem length_argSkeletons (args : List Expr) : (argSkeletons args).length = args.length := by
  induction args with
  | nil => rfl
  | cons a rest ih => rw [argSkeletons, List.length_cons, ih, List.length_cons]

theorem encode_skeleton (e : Expr) : e.skeleton.encode = e.encode := by
  induction e using nodeInduction with
  | int => rfl
  | ident => rw [skeleton, Skeleton.encode, encode, encodeName_eq]
  | binary l _ _ r ihl ihr => rw [skeleton, Skeleton.encode, encode, ihl, ihr]
  | assign _ _ _ v ih => rw [skeleton, Skeleton.encode, encode, encodeName_eq, ih]
  | call _ _ _ args _ ih =>
      have hargs : Skeleton.encodeArgs (argSkeletons args) = encodeArgs args := by
        induction args with
        | nil => rfl
        | cons a rest ihrest =>
            rw [argSkeletons, Skeleton.encodeArgs, encodeArgs, ih a List.mem_cons_self,
              ihrest fun b hb => ih b (List.mem_cons_of_mem a hb)]
      rw [skeleton, Skeleton.encode, encode, encodeName_eq, length_argSkeletons, hargs]
  | cond _ _ c y n _ ihc ihy ihn => rw [skeleton, Skeleton.encode, encode, ihc, ihy, ihn]

/-- Expressions with one skeleton have one shape, and conversely. -/
theorem skeleton_eq_iff (e f : Expr) : e.skeleton = f.skeleton ↔ e.shape = f.shape := by
  induction e using nodeInduction generalizing f with
  | int => cases f <;> simp [skeleton, shape]
  | ident => cases f <;> simp [skeleton, shape, Bytes.ofString_inj]
  | binary l _ _ r ihl ihr => cases f <;> simp [skeleton, shape, ihl, ihr, and_left_comm]
  | assign _ _ _ v ih => cases f <;> simp [skeleton, shape, Bytes.ofString_inj, ih]
  | call _ name _ args _ ih =>
      have hargs (others : List Expr) :
          argSkeletons args = argSkeletons others ↔ argShapes args = argShapes others := by
        induction args generalizing others with
        | nil => cases others <;> simp [argSkeletons, argShapes]
        | cons a rest ihrest =>
            have ha := ih a List.mem_cons_self
            have hrest := ihrest fun b hb => ih b (List.mem_cons_of_mem a hb)
            cases others <;> simp [argSkeletons, argShapes, ha, hrest]
      cases f <;> simp [skeleton, shape, Bytes.ofString_inj, hargs]
  | cond _ _ c y n _ ihc ihy ihn => cases f <;> simp [skeleton, shape, ihc, ihy, ihn]

/-- Structures are told apart by their encodings, of which none is a prefix of another, and expressions by the
structures that they have, without positions and the spelling of literals. Expressions of one structure have one
encoding, and one fingerprint, which is the hash of the encoding. -/
theorem encodings_told_apart :
    (∀ s t : Skeleton, s.encode <+: t.encode ↔ s = t) ∧
    (∀ e : Expr, e.encode = e.skeleton.encode ∧ e.fingerprint = ⟨Fingerprint.hash e.encode⟩) ∧
    ∀ e f : Expr, (e.encode <+: f.encode ↔ e.shape = f.shape) ∧
      (e.shape = f.shape → e.encode = f.encode ∧ e.fingerprint = f.fingerprint) := by
  refine ⟨fun s t => (delimits_skeleton s).prefix_iff, fun e => ⟨(encode_skeleton e).symm, fingerprint_eq e⟩,
    fun e f => ⟨?_, fun h => ?_⟩⟩
  · rw [← encode_skeleton, ← encode_skeleton, (delimits_skeleton _).prefix_iff, skeleton_eq_iff]
  · have hencode : e.encode = f.encode := by rw [← encode_shape, h, encode_shape]
    exact ⟨hencode, by rw [fingerprint_eq, fingerprint_eq, hencode]⟩

/-- The bytes of `f(x)` do not start those of `fx()`, nor the other way round, though the letters are the same; `01` and
`1` have one fingerprint. -/
theorem boundary_told_apart :
    ¬ (call default "f" default [ident default "x"] default).encode <+: (call default "fx" default [] default).encode ∧
    ¬ (call default "fx" default [] default).encode <+: (call default "f" default [ident default "x"] default).encode ∧
    (int default "01" 1).fingerprint = (int { offset := 5, column := 5 } "1" 1).fingerprint := by
  obtain ⟨-, -, happart⟩ := encodings_told_apart
  refine ⟨fun h => ?_, fun h => ?_, ((happart _ _).2 rfl).2⟩
  · simpa [shape] using (happart _ _).1.mp h
  · simpa [shape] using (happart _ _).1.mp h

end Expr

end TierCalc
