import TierCalc.Text.Bytes
import TierCalc.Text.Numeral

/-!
# Targets of requests

The target of a request is a path or a whole address: a scheme, two slashes, a host and a path. What follows a question
mark is no part of the path. Characters may be written as a percent sign and two hexadecimal digits for each byte, so a
path stands for bytes. A path in which exactly the bytes that need it are written so is taken by its meaning; any other
path is taken as it is written.
-/

namespace TierCalc.Service

/-- The byte that divides paths. -/
def slash : UInt8 := 47

/-- Whether a character may stand in the name of a scheme, at its start or later. -/
def isSchemeChar (start : Bool) (c : Char) : Bool := c.isAlpha || !start && (c.isDigit || "+-.".toList.contains c)

/-- What follows the scheme of a target and its colon. -/
def afterScheme? : List Char → Option (List Char)
  | [] => none
  | c :: rest =>
      match rest.dropWhile (isSchemeChar false) with
      | ':' :: tail => if isSchemeChar true c then some tail else none
      | _ => none

/-- The path of an address after its scheme: two slashes are followed by a host, and what starts with no slash has
no path. -/
def addressPath : List Char → List Char
  | '/' :: '/' :: rest => rest.dropWhile (· != '/')
  | '/' :: rest => '/' :: rest
  | _ => []

/-- The path of a target as it is written. -/
def rawPath (target : String) : Bytes :=
  let path (cs : List Char) : List Char := cs.takeWhile (· != '?')
  Bytes.ofString (String.ofList
    (match afterScheme? target.toList with
    | some rest => addressPath (path rest)
    | none => path target.toList))

/-- The bytes that a path stands for, or none if an escape is broken. -/
def unescape : Bytes → Option Bytes
  | [] => some []
  | b :: rest =>
      if b = 37 then
        match rest with
        | x :: y :: rest =>
            match Numeral.digitValue? 16 (Char.ofNat x.toNat), Numeral.digitValue? 16 (Char.ofNat y.toNat) with
            | some high, some low => (unescape rest).map ((high * 16 + low).toUInt8 :: ·)
            | _, _ => none
        | _ => none
      else (unescape rest).map (b :: ·)

/-- Whether a byte may stand for itself in a path. -/
def isPlain (b : UInt8) : Bool :=
  let c := Char.ofNat b.toNat
  b < 128 && (c.isAlphanum || "-_.~$&+,/:;=@".toList.contains c)

/-- The byte as a path writes it. -/
def escapeByte (b : UInt8) : Bytes :=
  if isPlain b then [b]
  else
    let digit (n : Nat) : UInt8 := (Bytes.hexDigit n).toUpper.toNat.toUInt8
    [37, digit (b.toNat / 16), digit (b.toNat % 16)]

/-- The meaning of a path, or the path itself if an escape is broken. -/
def decodedPath (raw : Bytes) : Bytes := (unescape raw).getD raw

/-- The path by which a request is routed. -/
def routedPath (raw : Bytes) : Bytes :=
  let decoded := decodedPath raw
  if decoded.flatMap escapeByte = raw then decoded else raw

end TierCalc.Service
