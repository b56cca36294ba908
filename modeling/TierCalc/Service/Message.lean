import TierCalc.Json.Basic
import TierCalc.Service.Target

/-!
# Requests and responses

A request carries random bytes, from which an identifier is made where the caller gives none.
-/

namespace TierCalc.Service

structure Request where
  method : String
  target : String
  body : String := ""
  requestId : String := ""
  cancelled : Bool := false
  random : Bytes := List.replicate 16 0

structure Response where
  status : Nat
  body : Json
  retryAfter : String := ""
  requestId : String := ""
  contentType : String := "application/json"

/-- The identifier of sixteen random bytes: hexadecimal digits in five groups, with the marks of a random one. -/
def randomId (bytes : Bytes) : String :=
  let b (i : Nat) : UInt8 := bytes.getD i 0
  let bytes := (List.range 16).map fun i =>
    if i = 6 then (b i &&& 0x0F) ||| 0x40 else if i = 8 then (b i &&& 0x3F) ||| 0x80 else b i
  let group (start count : Nat) : String := Bytes.hex ((bytes.drop start).take count)
  String.intercalate "-" [group 0 4, group 4 2, group 6 2, group 8 2, group 10 6]

/-- The method of a request; one that names none asks for something to be got. -/
def Request.verb (r : Request) : String := if r.method == "" then "GET" else r.method

/-- The path of a request as it is written. A request to connect names only a host. -/
def Request.rawPath (r : Request) : Bytes :=
  Service.rawPath (if r.verb == "CONNECT" && !r.target.startsWith "/" then "http://" ++ r.target else r.target)

/-- The identifier of a request: the caller's, or a random one. -/
def Request.id (r : Request) : String := if r.requestId == "" then randomId r.random else r.requestId

end TierCalc.Service
