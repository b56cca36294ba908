import TierCalc.Text.Numeral

/-!
# IPv6 addresses

An address has eight groups of up to four hexadecimal digits with colons between them. One run of groups of zeros may be
left out at a double colon, and the last two groups may be written as the four numbers of an IPv4 address. A percent sign
and the name of a zone may follow.

* `Ipv6.parse?` reads an address.
* `Ipv6.text` writes one in its shortest form: no zeros in front of a group, and the first of the longest runs of zeros
  left out if it has two groups or more.
-/

namespace TierCalc

/-- An address: its eight groups and its zone, which is often empty. -/
structure Ipv6 where
  groups : List Nat
  zone : String := ""
deriving DecidableEq, Repr

namespace Ipv6

/-- One of the four numbers of an IPv4 address: at most 255, without zeros in front. -/
def octet? (s : String) : Option Nat :=
  match s.toList with
  | ['0'] => some 0
  | '0' :: _ => none
  | _ => (Numeral.nat? 10 s).filter (· ≤ 255)

/-- The four numbers of an IPv4 address. -/
def octets? (s : String) : Option (List Nat) := ((s.splitOn ".").mapM octet?).filter (·.length = 4)

/-- A group: one to four hexadecimal digits. -/
def group? (s : String) : Option Nat := if s.length ≤ 4 then Numeral.nat? 16 s else none

/-- The groups of a text with colons between them. The last one may be an IPv4 address where `mixed` says so. -/
def groups? (mixed : Bool) : List String → Option (List Nat)
  | [] => some []
  | [s] =>
      match group? s, octets? s with
      | some g, _ => some [g]
      | none, some [a, b, c, d] => if mixed then some [a * 256 + b, c * 256 + d] else none
      | none, _ => none
  | s :: rest => do return (← group? s) :: (← groups? mixed rest)

/-- The groups of a text that may be empty. -/
def side? (mixed : Bool) (s : String) : Option (List Nat) :=
  if s == "" then some [] else groups? mixed (s.splitOn ":")

/-- The text before the first double colon and the text after it. -/
def cut? : List Char → Option (List Char × List Char)
  | ':' :: ':' :: rest => some ([], rest)
  | c :: rest => (cut? rest).map fun p => (c :: p.1, p.2)
  | [] => none

/-- The eight groups of an address. A double colon stands for at least one group. -/
def body? (cs : List Char) : Option (List Nat) :=
  match cut? cs with
  | none => (groups? true ((String.ofList cs).splitOn ":")).filter (·.length = 8)
  | some (before, after) => do
      let high ← side? false (String.ofList before)
      let low ← side? true (String.ofList after)
      if high.length + low.length < 8 then
        return high ++ List.replicate (8 - high.length - low.length) 0 ++ low
      else none

/-- The address that a text denotes. -/
def parse? (s : String) : Option Ipv6 :=
  let cs := s.toList
  match cs.dropWhile (· != '%') with
  | [] => (body? cs).map fun groups => { groups }
  | ['%'] => none
  | _ :: zone => (body? (cs.takeWhile (· != '%'))).map fun groups => { groups, zone := String.ofList zone }

/-- The four numbers of an IPv4 address that is written as an IPv6 one. -/
def mapped? (a : Ipv6) : Option (List Nat) :=
  match a.groups with
  | [0, 0, 0, 0, 0, 0xFFFF, high, low] => some [high / 256, high % 256, low / 256, low % 256]
  | _ => none

/-- The number of zeros at the start of a list. -/
def zeros (groups : List Nat) : Nat := (groups.takeWhile (· = 0)).length

/-- The start and the length of the first of the longest runs of zeros from a place on. -/
def longestRun : Nat → List Nat → Nat × Nat
  | _, [] => (0, 0)
  | start, g :: rest =>
      let here := zeros (g :: rest)
      let later := longestRun (start + 1) rest
      if later.2 ≤ here then (start, here) else later

/-- A list of groups with colons between them. -/
def joined (groups : List Nat) : String := ":".intercalate (groups.map Numeral.hex)

/-- The text of the groups of an address. -/
def groupsText (groups : List Nat) : String :=
  let (start, count) := longestRun 0 groups
  if count < 2 then joined groups else joined (groups.take start) ++ "::" ++ joined (groups.drop (start + count))

def text (a : Ipv6) : String :=
  (match a.mapped? with
  | some octets => ".".intercalate (octets.map toString)
  | none => groupsText a.groups) ++ if a.zone == "" then "" else "%" ++ a.zone

/-- Whether an address is one of this machine, whatever its network. -/
def isLoopback (a : Ipv6) : Bool := a.groups = [0, 0, 0, 0, 0, 0, 0, 1]

/-- Whether an address stands for all of this machine. -/
def isAny (a : Ipv6) : Bool := a.groups = [0, 0, 0, 0, 0, 0, 0, 0]

/-- Whether an address counts on one link only. -/
def isLinkLocal (a : Ipv6) : Bool := (a.groups.headD 0) / 64 = 0x3FA

/-- Whether an address stands for a group of machines. -/
def isMulticast (a : Ipv6) : Bool := (a.groups.headD 0) / 256 = 0xFF

end Ipv6

end TierCalc
