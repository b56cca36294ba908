/-!
# Byte strings

Source text is a sequence of bytes that need not be valid UTF-8, so it is kept as a list of bytes; names and
messages are `String`s and enter byte strings by their UTF-8 encoding.

* `Bytes.ofString` and `Bytes.toString?` pass between the two.
* `Bytes.ascii` reads bytes one character each, which is their text whenever all of them are below 128.
* `Bytes.hex` writes two lowercase hexadecimal digits for every byte.
-/

namespace TierCalc

abbrev Bytes := List UInt8

namespace Bytes

def ofString (s : String) : Bytes := s.toUTF8.toList

/-- The text that the bytes encode, if they are valid UTF-8. -/
def toString? (b : Bytes) : Option String := String.fromUTF8? ⟨b.toArray⟩

/-- The characters whose code points are the bytes. -/
def ascii (b : Bytes) : String := String.ofList (b.map fun c => Char.ofNat c.toNat)

def hexDigit (n : Nat) : Char := if n < 10 then Char.ofNat (48 + n) else Char.ofNat (87 + n)

/-- A byte as two lowercase hexadecimal digits. -/
def hexByte (b : UInt8) : String := String.ofList [hexDigit (b.toNat / 16), hexDigit (b.toNat % 16)]

/-- Two lowercase hexadecimal digits for every byte. -/
def hex (b : Bytes) : String := String.join (b.map hexByte)

/-- The four bytes of a 32-bit word, lowest first. -/
def le32 (w : UInt32) : Bytes :=
  [w.toUInt8, (w >>> 8).toUInt8, (w >>> 16).toUInt8, (w >>> 24).toUInt8]

/-- The eight bytes of a 64-bit word, lowest first. -/
def le64 (w : UInt64) : Bytes :=
  [w.toUInt8, (w >>> 8).toUInt8, (w >>> 16).toUInt8, (w >>> 24).toUInt8,
   (w >>> 32).toUInt8, (w >>> 40).toUInt8, (w >>> 48).toUInt8, (w >>> 56).toUInt8]

/-- The 32-bit word whose bytes are these, lowest first. -/
def word32 (a b c d : UInt8) : UInt32 :=
  a.toUInt32 ||| b.toUInt32 <<< 8 ||| c.toUInt32 <<< 16 ||| d.toUInt32 <<< 24

/-- The 64-bit word made of a low and a high half. -/
def word64 (low high : UInt32) : UInt64 := low.toUInt64 ||| high.toUInt64 <<< 32

end Bytes

end TierCalc
