import Snowbank.Service.Metrics
import Snowbank.Store.Request

/-!
# HTTP

The endpoints of a service, and what an HTTP request asks of its database.

* `POST /query` answers a query.
* `POST /insert/FACT` inserts one document, or an array of documents.
* `GET /health` says that the service is there.
* `GET /metrics` shows its counters.

What can be read with `GET` can be asked for with `HEAD`, which leaves out the
text.
-/

namespace Snowbank

/-- What a path stands for. -/
inductive Endpoint where
  | query
  | insert (fact : String)
  | health
  | metrics

/-- A request with a method and a path; a body is JSON text. -/
structure HttpRequest where
  method : String
  path : String
  body : Option String

/-- The body of a response. -/
inductive HttpBody where
  | json (value : Json)
  | text (content : String)
  | lines (content : List String)
  /-- A refusal; what it says is not part of the service. -/
  | refusal

/-- A response. -/
structure HttpResponse where
  status : Nat
  body : HttpBody

namespace HttpResponse

/-- A request that is refused as such. -/
def refuse (status : Nat) : HttpResponse := ⟨status, .refusal⟩

def statusOf : ErrorKind → Nat
  | .execute => 500
  | .transaction => 409
  | _ => 400

/-- The response that tells an error. -/
def ofError (e : ExecutionError) : HttpResponse :=
  ⟨statusOf e.kind, .json (.mkObj [("kind", .str e.kind.name), ("error", .str e.message)])⟩

end HttpResponse

namespace Endpoint

/-- The bytes of a path with its escapes resolved: a percent sign and two
    hexadecimal digits are a byte. Any other percent sign stands for itself. -/
def unescape : List Char → List Nat
  | [] => []
  | '%' :: a :: b :: rest =>
    match Json.Reader.hexDigit? a, Json.Reader.hexDigit? b with
    | some x, some y => (x * 16 + y) :: unescape rest
    | _, _ => 0x25 :: unescape (a :: b :: rest)
  | c :: rest => (c.toString.toUTF8.toList.map UInt8.toNat) ++ unescape rest

/-- The text of a segment of a path, unless its bytes are not text. -/
def segmentText? (segment : List Char) : Option String :=
  String.fromUTF8? (ByteArray.mk ((unescape segment).map Nat.toUInt8).toArray)

/-- A path without what comes after it. -/
def pathChars (path : String) : List Char :=
  path.toList.takeWhile fun c => c != '?' && c != '#'

/-- What a path stands for: nothing, or an endpoint, unless the fact that it names is not text. -/
def ofPath? (path : String) : Option (Option Endpoint) :=
  let cs := pathChars path
  let text := String.ofList cs
  if text == "/query" then some (some query)
  else if text == "/health" then some (some health)
  else if text == "/metrics" then some (some metrics)
  else
    let fact := cs.drop 8
    if "/insert/".toList.isPrefixOf cs && !fact.isEmpty && !fact.contains '/' then
      some ((segmentText? fact).map insert)
    else none

/-- The methods of an endpoint; one for a fact that is not text is asked as any other. -/
def methods : Option Endpoint → List String
  | some health | some metrics => ["GET", "HEAD"]
  | _ => ["POST"]

/-- The documents of a body. -/
def documents : Json → List Json
  | .arr docs => docs
  | doc => [doc]

end Endpoint

/-- What an HTTP request asks for: a response at once, or something of the database. -/
inductive Routed where
  | respond (response : HttpResponse)
  | ask (endpoint : Endpoint) (request : Request)

namespace HttpRequest

/-- The value at the front of the body. What follows it is not looked at. -/
def bodyValue (r : HttpRequest) : Except HttpResponse Json :=
  match r.body with
  | none => .error (.refuse 415)
  | some text =>
    match Json.Reader.front text.toList with
    | .ok (value, _) => .ok value
    | .error _ => .error (.refuse 400)

/-- Ask the database something about the body. -/
def askWith (r : HttpRequest) (endpoint : Endpoint) (request : Json → Request) : Routed :=
  match r.bodyValue with
  | .ok value => .ask endpoint (request value)
  | .error response => .respond response

/-- What a request asks for. -/
def route (r : HttpRequest) (m : Metrics) : Routed :=
  match Endpoint.ofPath? r.path with
  | none => .respond (.refuse 404)
  | some endpoint =>
    if !(Endpoint.methods endpoint).contains r.method then .respond (.refuse 405)
    else
      match endpoint with
      | none => .respond (.refuse 400)
      | some .health => .respond ⟨200, .text (if r.method == "HEAD" then "" else "OK")⟩
      | some .metrics => .respond ⟨200, .lines (if r.method == "HEAD" then [] else m.lines)⟩
      | some .query => r.askWith .query .query
      | some (.insert fact) =>
        r.askWith (.insert fact) fun body => .insert fact (Endpoint.documents body)

end HttpRequest

namespace Endpoint

/-- Count what came of a request. -/
def count (endpoint : Endpoint) (outcome : Outcome) (m : Metrics) : Metrics :=
  match endpoint, outcome with
  | query, .failed _ => m.countQuery.countRequest "query" false
  | query, _ => m.countQuery.countRequest "query" true
  | insert _, .failed _ => m.countRequest "insert" false
  | insert fact, .inserted ids => (m.countRequest "insert" true).countDocuments fact ids.length
  | _, _ => m

/-- The response to what came of a request. -/
def respond (endpoint : Endpoint) (outcome : Outcome) : HttpResponse :=
  match endpoint, outcome with
  | _, .failed e => .ofError e
  | _, .answer value => ⟨200, .json value⟩
  | insert fact, .inserted ids =>
    ⟨200, .json (.mkObj [("fact", .str fact), ("guids", .strings ids)])⟩
  | _, _ => .refuse 500

end Endpoint

end Snowbank
