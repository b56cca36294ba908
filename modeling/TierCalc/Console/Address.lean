import TierCalc.Text.Ipv6

/-!
# Addresses to listen on

An address is a host, a colon and a port. A host with colons stands between brackets. A port is a number, which may
have a sign, or the name of a service; without one any port will do, and without an address that of the service
`http`.

Names of hosts are not looked up. A text that can be no name is known to be none, and of the hosts in numbers only those
of this machine can be listened on.
-/

namespace TierCalc.Address

/-- Why an address cannot be listened on. -/
inductive Problem where
  | form (address reason : String)
  | unknownPort (name : String)
  | unknownHost (name : String)
  | foreignHost (host : String) (port : Nat)
  | incompleteHost (host : String) (port : Nat)
deriving DecidableEq, Repr

def Problem.message : Problem → String
  | form address reason => "listen tcp: " ++ (if address == "" then "" else "address " ++ address ++ ": ") ++ reason
  | unknownPort name => "listen tcp: lookup tcp/" ++ name ++ ": unknown port"
  | unknownHost name => "listen tcp: lookup " ++ name ++ ": no such host"
  | foreignHost host port =>
      "listen tcp " ++ host ++ ":" ++ toString port ++ ": bind: cannot assign requested address"
  | incompleteHost host port => "listen tcp " ++ host ++ ":" ++ toString port ++ ": bind: invalid argument"

/-- The characters before the last colon and those after it. -/
def splitLast (cs : List Char) : Option (List Char × List Char) :=
  let after := (cs.reverse.takeWhile (· != ':')).reverse
  if cs.contains ':' then some (cs.take (cs.length - after.length - 1), after) else none

/-- The host and the port of an address. -/
def split (address : String) : Except Problem (String × String) :=
  let fail (reason : String) : Except Problem (String × String) := .error (.form address reason)
  let cs := address.toList
  match splitLast cs with
  | none => fail "missing port in address"
  | some (host, port) =>
      let done (host inside outside : List Char) : Except Problem (String × String) :=
        if inside.contains '[' then fail "unexpected '[' in address"
        else if outside.contains ']' then fail "unexpected ']' in address"
        else .ok (String.ofList host, String.ofList port)
      match cs with
      | '[' :: rest =>
          if !cs.contains ']' then fail "missing ']' in address"
          else
            let name := rest.takeWhile (· != ']')
            let tail := (rest.dropWhile (· != ']')).drop 1
            if tail = ':' :: port then done name rest tail
            else if tail.head? == some ':' then fail "too many colons in address"
            else fail "missing port in address"
      | _ => if host.contains ':' then fail "too many colons in address" else done host cs cs

/-- The number of a port counts up to this. -/
def cutoff : Nat := 0x40000000

/-- The size of a port's number, in 32-bit words that wrap. A number that reaches the cutoff before its last digit, or
overflows at a digit, is the greatest word. -/
def portSize : Nat → List Char → Option Nat
  | n, [] => some n
  | n, c :: rest =>
      if !c.isDigit then none
      else if cutoff ≤ n then some 0xFFFFFFFF
      else
        let shifted := (n * 10) % UInt32.size
        let next := (shifted + (c.toNat - 48)) % UInt32.size
        if next < shifted then some 0xFFFFFFFF else portSize next rest

/-- The number that a port denotes, if it is one. -/
def portNumber? (port : String) : Option Int :=
  match port.toList with
  | '-' :: ds => (portSize 0 ds).map fun n => -(min n cutoff : Int)
  | '+' :: ds => (portSize 0 ds).map fun n => min n (cutoff - 1)
  | ds => (portSize 0 ds).map fun n => min n (cutoff - 1)

/-- The services that have a port of their own. -/
def services : List (String × Nat) :=
  [("domain", 53), ("ftp", 21), ("ftps", 990), ("gopher", 70), ("http", 80), ("https", 443), ("imap2", 143),
   ("imap3", 220), ("imaps", 993), ("pop3", 110), ("pop3s", 995), ("smtp", 25), ("ssh", 22), ("submissions", 465),
   ("telnet", 23)]

def port (s : String) : Except Problem Nat :=
  match portNumber? s with
  | some n => if 0 ≤ n ∧ n ≤ 65535 then .ok n.toNat else .error (.form s "invalid port")
  | none =>
      match services.lookup (String.ofList (s.toList.map Char.toLower)) with
      | some n => .ok n
      | none => .error (.unknownPort s)

/-- Whether a text is a label of a name: letters, digits, underscores, and dashes between them, at most 63. -/
def isLabel (s : String) : Bool :=
  s != "" && s.length ≤ 63 && s.toList.all (fun c => c.isAlphanum || c == '-' || c == '_')
    && !s.startsWith "-" && !s.endsWith "-"

/-- Whether a text can be the name of a host: labels between points, not all of them numbers. A point may end it. -/
def isName (host : String) : Bool :=
  let labels := host.splitOn "."
  let labels := if labels.getLast? == some "" then labels.dropLast else labels
  host == "." || (host.length ≤ (if host.endsWith "." then 254 else 253) && !labels.isEmpty && labels.all isLabel
    && host.toList.any fun c => c.isAlpha || c == '-' || c == '_')

/-- Why a host in four numbers cannot be listened on, if it cannot. -/
def numbersProblem? (octets : List Nat) (n : Nat) : Option Problem :=
  if octets.head? = some 127 ∨ octets = [0, 0, 0, 0] then none
  else some (.foreignHost (".".intercalate (octets.map toString)) n)

/-- Whether the zone of a host that counts on one link only tells the link: by number, or as this machine's own. -/
def namesLink (zone : String) : Bool := zone == "lo" || (zone.toList.headD ' ').isDigit

/-- Why a host in groups cannot be listened on, if it cannot. -/
def groupsProblem? (host : Ipv6) (n : Nat) : Option Problem :=
  let shown := "[" ++ host.text ++ "]"
  match host.mapped? with
  | some octets => numbersProblem? octets n
  | none =>
      if host.isAny || host.isLoopback then none
      else if host.isMulticast || (host.isLinkLocal && !namesLink host.zone) then some (.incompleteHost shown n)
      else some (.foreignHost shown n)

/-- Why a host cannot be listened on, if it cannot. -/
def hostProblem? (host : String) (n : Nat) : Option Problem :=
  match Ipv6.octets? host, Ipv6.parse? host with
  | some octets, _ => numbersProblem? octets n
  | none, some a => groupsProblem? a n
  | none, none => if host == "" || isName host then none else some (.unknownHost host)

/-- Why an address cannot be listened on, if it cannot. -/
def problem? (address : String) : Option Problem :=
  match split (if address == "" then ":http" else address) with
  | .error p => some p
  | .ok (host, text) =>
      match port text with
      | .error p => some p
      | .ok n => hostProblem? host n

end TierCalc.Address
