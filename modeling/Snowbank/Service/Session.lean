import Snowbank.Service.Http
import Snowbank.Store.Database

/-!
# Sessions

Someone's dealings with a database: requests, of which some have to wait, and
transactions under names. A request that waits is answered when the
transaction in its way has ended.
-/

namespace Snowbank

/-- How a request was made. -/
inductive Origin where
  | direct
  /-- The beginning of a transaction under a name. -/
  | transaction (name : String)
  | endpoint (endpoint : Endpoint)

/-- The answer to a request. -/
inductive Reply where
  | outcome (outcome : Outcome)
  | begun (name : String)
  | response (response : HttpResponse)

/-- A database, its transactions under names, and the requests that were not
    answered at once, in the order in which they were made. -/
structure Session (σ : Type) where
  database : Database σ
  transactions : List (String × TransactionId)
  origins : List (Nat × Origin)
  /-- The answers to requests that no one has seen yet. -/
  replies : List (Nat × Reply)
  metrics : Metrics

namespace Session

variable {σ : Type}

def ofDatabase (database : Database σ) : Session σ := ⟨database, [], [], [], .zero⟩

/-- Take what came of a request: a transaction is kept under its name, and
    requests to an endpoint are counted. -/
def accept (s : Session σ) (request : Nat) (outcome : Outcome) : Session σ :=
  let add (s : Session σ) (reply : Reply) : Session σ :=
    { s with replies := s.replies ++ [(request, reply)] }
  match s.origins.lookup request, outcome with
  | some (.transaction name), .begun id =>
    add { s with transactions := Ordered.insert name id s.transactions } (.begun name)
  | some (.endpoint e), outcome =>
    add { s with metrics := e.count outcome s.metrics } (.response (e.respond outcome))
  | some _, outcome => add s (.outcome outcome)
  | none, _ => s

/-- Take what came of all requests that are done. -/
def collect (s : Session σ) : Session σ :=
  let finished := s.database.finished
  let s := { s with database := { s.database with finished := [] } }
  finished.foldl (fun s (request, outcome) => s.accept request outcome) s

/-- Take the answer to a request, if there is one. -/
def take (s : Session σ) (request : Nat) : Option Reply × Session σ :=
  match s.replies.lookup request with
  | none => (none, s)
  | some reply =>
    (some reply, { s with
      replies := s.replies.filter fun (r, _) => r != request
      origins := s.origins.filter fun (r, _) => r != request })

/-- Make a request. Without an answer it waits. -/
def make (b : Backend σ) (s : Session σ) (origin : Origin) (r : Request) :
    Option Reply × Session σ :=
  let s := { s with origins := s.origins ++ [(s.database.nextRequest, origin)] }
  let (id, database) := s.database.request b r
  { s with database }.collect.take id

/-- Make a request. -/
def ask (b : Backend σ) (s : Session σ) (r : Request) : Option Reply × Session σ :=
  s.make b .direct r

/-- Begin a transaction under a name. -/
def begin (b : Backend σ) (s : Session σ) (name : String) : Option Reply × Session σ :=
  s.make b (.transaction name) .begin

/-- Make an HTTP request. -/
def http (b : Backend σ) (s : Session σ) (r : HttpRequest) : Option Reply × Session σ :=
  match r.route s.metrics with
  | .respond response => (some (.response response), s)
  | .ask endpoint request => s.make b (.endpoint endpoint) request

def inTransaction (b : Backend σ) (s : Session σ) (id : TransactionId) (work : Work) :
    Except ExecutionError Rows × Session σ :=
  let (result, database) := s.database.inTransaction b id work
  (result, { s with database }.collect)

/-- The answers to requests that had to wait, in the order in which they were made, up to one that
    began a transaction: what was made after it may have to wait for that. -/
def resumed : List Nat → Session σ → List Reply × Session σ
  | [], s => ([], s)
  | request :: rest, s =>
    match s.take request with
    | (none, s) => resumed rest s
    | (some (.begun name), s) => ([.begun name], s)
    | (some reply, s) =>
      let (more, s) := resumed rest s
      (reply :: more, s)

/-- End a transaction, and answer what was waiting for its end. -/
def finish (b : Backend σ) (s : Session σ) (name : String) (id : TransactionId) (work : Work) :
    Except ExecutionError Rows × List Reply × Session σ :=
  let s := { s with transactions := Ordered.erase name s.transactions }
  let (result, s) := s.inTransaction b id work
  let (replies, s) := resumed (s.origins.map Prod.fst) s
  (result, replies, s)

/-- End the session: what waits is not answered any more, transactions that
    are open are undone, and the database is closed. -/
def close (b : Backend σ) (s : Session σ) : σ :=
  s.database.close b (s.transactions.map Prod.snd)

end Session

end Snowbank
