import TierCalc.Engine.Requests
import TierCalc.Json.Reader
import TierCalc.Service.Message
import TierCalc.Service.Target
import TierCalc.Service.View

/-!
# The service

Answers requests with the help of one engine.

* A path that is no route is not found; a route asked with another method than its own is not allowed.
* An error of the caller answers 400. A busy or closed engine answers 503, and a busy one asks to be tried again. A
  caller that gave up is told so by 408.
* Every request is reported after its response is made.
-/

namespace TierCalc.Service

/-- What can be asked for. -/
inductive Route where
  | execute
  | stats
  | cache
  | code (fingerprint : Bytes)
  | reset
  | health
deriving DecidableEq, Repr

namespace Route

def method : Route → String
  | execute | reset => "POST"
  | _ => "GET"

def ofPath? (path : Bytes) : Option Route :=
  let fixed : List (String × Route) :=
    [("/api/execute", execute), ("/api/stats", stats), ("/api/cache", cache), ("/api/reset", reset),
      ("/api/health", health)]
  match fixed.find? fun f => Bytes.ofString f.1 = path with
  | some (_, route) => some route
  | none =>
      let base := Bytes.ofString "/api/cache/"
      let rest := path.drop base.length
      let (fp, tail) := (rest.takeWhile (· ≠ slash), rest.dropWhile (· ≠ slash))
      if path.take base.length = base ∧ tail = Bytes.ofString "/code" then some (code fp) else none

end Route

/-- The methods that are known at all. -/
def methods : List String := ["CONNECT", "DELETE", "GET", "HEAD", "OPTIONS", "PATCH", "POST", "PUT", "TRACE"]

/-- The largest body that is read, in bytes. -/
def maxBodyBytes : Nat := 65536

/-- A body that tells an error, and its code if it has one. -/
def errorJson (message : String) (code? : Option ErrorCode := none) : Json :=
  .obj (("error", .str message) :: (code?.map fun c => ("code", .str c.text)).toList)

/-- Whether an error comes from the caller having given up. -/
def isCancellation : EngineError → Bool
  | .cancelled => true
  | .malformed { fault := .cancelled, .. } => true
  | _ => false

def errorResponse (r : Request) (e : EngineError) (s : Engine) : Response × Engine :=
  let body := errorJson e.message e.code?
  match e with
  | .failed { cause := .busy _, .. } => ({ status := 503, body := body, retryAfter := "1" }, s)
  | .closed => ({ status := 503, body := body }, s)
  | _ =>
      if r.cancelled && isCancellation e then ({ status := 408, body := body }, s)
      else if e.code?.isSome then ({ status := 400, body := body }, s)
      else ({ status := 500, body := body }, s.report (.internalError r.id e.message))

/-- The response to an answer of the engine. -/
def respond {α : Type} (r : Request) (view : α → Json) : Except EngineError α × Engine → Response × Engine
  | (.ok a, s) => ({ status := 200, body := view a }, s)
  | (.error e, s) => errorResponse r e s

/-- The characters of a text that lie within a number of bytes. -/
def within : Nat → List Char → List Char
  | _, [] => []
  | room, c :: rest => if c.utf8Size ≤ room then c :: within (room - c.utf8Size) rest else []

/-- The source text that a member leaves, given the one before it. Keys match in any case of letters; other members
do not count, and a null leaves the text as it is. -/
def sourceMember (code : String) : String × Json → Option String
  | (key, v) =>
      if key.toList.map Char.toLower = "code".toList then
        match v with
        | .str s => some s
        | .null => some code
        | _ => none
      else some code

/-- The source text in the body of a request. -/
def sourceOf (body : String) : Except String String :=
  match Json.read (within maxBodyBytes body.toList) with
  | .error e => .error e.message
  | .ok (.null, _) => .ok ""
  | .ok (.obj members, _) =>
      match members.foldlM sourceMember "" with
      | some code => .ok code
      | none => .error "the code is not a string"
  | .ok _ => .error "the body is not an object"

def execute (fns : Builtins Engine) (r : Request) (s : Engine) : Response × Engine :=
  match sourceOf r.body with
  | .error e => ({ status := 400, body := errorJson ("invalid request body: " ++ e) }, s)
  | .ok code => respond r executionJson (s.execute fns { bytes := Bytes.ofString code } r.cancelled)

/-- Shows the code compiled for a fingerprint. -/
def showCode (r : Request) (text : Bytes) (s : Engine) : Response × Engine :=
  match text.toString?.bind Fingerprint.parse? with
  | none => ({ status := 400, body := errorJson (Fingerprint.invalidBytes text) }, s)
  | some fp =>
      match s.routine fp with
      | (.error (.notCompiled fp), s) =>
          ({ status := 404, body := errorJson (EngineError.message (.notCompiled fp)) }, s)
      | (.error e, s) => errorResponse r e s
      | (.ok routine, s) =>
          match Routine.Listing.rows routine.code routine.layout with
          | .ok rows => ({ status := 200, body := codeJson fp routine rows }, s)
          | .error e => ({ status := 500, body := errorJson e.message }, s.report (.internalError r.id e.message))

def answer (fns : Builtins Engine) (r : Request) (s : Engine) : Route → Response × Engine
  | .execute => execute fns r s
  | .stats => respond r (statsJson · s.config) s.stats
  | .cache => respond r (fun es => .arr (es.map entryJson)) s.ranking
  | .code fp => showCode r fp s
  | .reset => respond r (fun _ => .obj [("status", .str "reset")]) s.reset
  | .health => ({ status := 200, body := .obj [("status", .str "ok")] }, s)

/-- Finds the route of a request and answers it. -/
def dispatch (fns : Builtins Engine) (r : Request) (s : Engine) : Response × Engine :=
  let notAllowed : Response := { status := 405, body := errorJson "method not allowed" }
  if !methods.contains r.verb then (notAllowed, s)
  else
    match Route.ofPath? (routedPath r.rawPath) with
    | none => ({ status := 404, body := errorJson "not found" }, s)
    | some route => if r.verb == route.method then answer fns r s route else (notAllowed, s)

def Response.text (r : Response) : String := r.body.compress ++ "\n"

/-- Answers a request and reports it. -/
def handle (fns : Builtins Engine) (r : Request) (s : Engine) : Response × Engine :=
  let (response, s) := dispatch fns r s
  ({ response with requestId := r.id },
    s.report (.served r.id r.verb (Utf8.shown (decodedPath r.rawPath)) response.status response.text.utf8ByteSize))

end TierCalc.Service
