import TierCalc.Expr.Basic
import TierCalc.Text.Bytes
import TierCalc.Text.Numeral
import TierCalc.Text.Quoted

/-!
# Fingerprints

A fingerprint identifies an expression by its shape: kinds of node, operators, values of literals, names and nesting.
Positions and the spelling of literals do not count.

* `Expr.encode` writes the shape as bytes: a tag for each node, then its fields. Names and lists of arguments have
  their length in front.
* `Fingerprint.hash` is the 64-bit FNV-1a hash of bytes, and `Expr.fingerprint` that of the encoding
  (`Expr.fingerprint_eq`).
-/

namespace TierCalc

/-- A 64-bit identification of an expression's shape. -/
structure Fingerprint where
  value : UInt64
deriving DecidableEq, Repr, Inhabited

namespace Fingerprint

/-- Sixteen lowercase hexadecimal digits. -/
def text (f : Fingerprint) : String := Numeral.hexPadded 16 f.value.toNat

/-- The fingerprint that hexadecimal digits denote. -/
def parse? (s : String) : Option Fingerprint :=
  match Numeral.nat? 16 s with
  | some n => if n < UInt64.size then some ⟨n.toUInt64⟩ else none
  | none => none

/-- What is said about a text that is no fingerprint. -/
def invalidText (s : String) : String := "invalid fingerprint " ++ Quoted.text s

/-- What is said about a byte string that is no fingerprint. -/
def invalidBytes (b : Bytes) : String := "invalid fingerprint " ++ Quoted.bytes b

/-- The hash of no bytes. -/
def basis : UInt64 := 14695981039346656037

/-- The factor between bytes. -/
def prime : UInt64 := 1099511628211

def hash (bytes : Bytes) : UInt64 := bytes.foldl (fun h b => (h ^^^ b.toUInt64) * prime) basis

/-- A number in groups of seven bits, lowest first, each but the last marked by its top bit. -/
def uvarint (n : Nat) : Bytes :=
  if n < 128 then [n.toUInt8] else (n % 128 + 128).toUInt8 :: uvarint (n / 128)
termination_by n

end Fingerprint

namespace Expr

/-- A name with its length in front. -/
def encodeName (name : String) : Bytes :=
  Fingerprint.uvarint name.utf8ByteSize ++ Bytes.ofString name

mutual

/-- The bytes that stand for the shape of an expression. -/
def encode : Expr → Bytes
  | int _ _ v => 1 :: Bytes.le64 v.toUInt64
  | ident _ name => 2 :: encodeName name
  | binary l _ op r => 3 :: op :: (l.encode ++ r.encode)
  | assign _ name _ v => 4 :: (encodeName name ++ v.encode)
  | call _ name _ args _ => 5 :: (encodeName name ++ (Fingerprint.uvarint args.length ++ encodeArgs args))
  | cond _ _ c y n _ => 6 :: (c.encode ++ (y.encode ++ n.encode))

def encodeArgs : List Expr → Bytes
  | [] => []
  | a :: rest => a.encode ++ encodeArgs rest

end

mutual

/-- The bytes that stand for the shape of an expression in front of a tail. -/
def encodeOnto (tail : Bytes) : Expr → Bytes
  | int _ _ v => 1 :: (Bytes.le64 v.toUInt64 ++ tail)
  | ident _ name => 2 :: (encodeName name ++ tail)
  | binary l _ op r => 3 :: op :: encodeOnto (encodeOnto tail r) l
  | assign _ name _ v => 4 :: (encodeName name ++ encodeOnto tail v)
  | call _ name _ args _ =>
      5 :: (encodeName name ++ (Fingerprint.uvarint args.length ++ encodeArgsOnto tail args))
  | cond _ _ c y n _ => 6 :: encodeOnto (encodeOnto (encodeOnto tail n) y) c

/-- The bytes of a list of arguments in front of a tail. -/
def encodeArgsOnto (tail : Bytes) : List Expr → Bytes
  | [] => tail
  | a :: rest => encodeOnto (encodeArgsOnto tail rest) a

end

mutual

theorem encodeOnto_eq (tail : Bytes) : (e : Expr) → e.encodeOnto tail = e.encode ++ tail
  | int _ _ _ => by simp [encodeOnto, encode]
  | ident _ _ => by simp [encodeOnto, encode]
  | binary l _ _ r => by simp [encodeOnto, encode, encodeOnto_eq _ l, encodeOnto_eq _ r]
  | assign _ _ _ v => by simp [encodeOnto, encode, encodeOnto_eq _ v]
  | call _ _ _ args _ => by simp [encodeOnto, encode, encodeArgsOnto_eq _ args]
  | cond _ _ c y n _ => by simp [encodeOnto, encode, encodeOnto_eq _ c, encodeOnto_eq _ y, encodeOnto_eq _ n]

theorem encodeArgsOnto_eq (tail : Bytes) : (args : List Expr) → encodeArgsOnto tail args = encodeArgs args ++ tail
  | [] => rfl
  | a :: rest => by simp [encodeArgsOnto, encodeArgs, encodeOnto_eq _ a, encodeArgsOnto_eq _ rest]

end

def fingerprint (e : Expr) : Fingerprint := ⟨Fingerprint.hash (e.encodeOnto [])⟩

theorem fingerprint_eq (e : Expr) : e.fingerprint = ⟨Fingerprint.hash e.encode⟩ := by
  simp [fingerprint, encodeOnto_eq]

end Expr

end TierCalc
