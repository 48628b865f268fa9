import Snowbank.Store.Load
import Snowbank.Store.Request
import Snowbank.Text.Uuid

/-!
# Databases

A database takes requests at any time. Each of them has at most one job with
the worker; while that waits for the end of a transaction the request waits
too, and other requests are taken. Only one request may write at a time, and
those that want to write wait for each other in the order in which they came:
the next begins, with the catalog as it is then, when the one before is done.
-/

namespace Snowbank

/-- A request that waits for a job. -/
structure Task where
  request : Nat
  stage : Stage

/-- A request that waits for the right to write. -/
structure Writer where
  request : Nat
  fact : String
  docs : List Json

/-- A database on a store with states of type `σ`. -/
structure Database (σ : Type) where
  worker : Worker σ
  catalog : Catalog
  /-- The present, in seconds since the beginning of 1970. -/
  clock : Float
  tasks : List Task
  /-- Some request is writing. -/
  writing : Bool
  writers : List Writer
  /-- Requests that are done, in the order in which they were. -/
  finished : List (Nat × Outcome)
  nextRequest : Nat
  nextTransaction : TransactionId
  nextDocument : Nat

namespace Database

variable {σ : Type}

def ofStore (store : σ) (catalog : Catalog) (clock : Float) : Database σ where
  worker := Worker.ofStore store
  catalog := catalog
  clock := clock
  tasks := []
  writing := false
  writers := []
  finished := []
  nextRequest := 0
  nextTransaction := 1
  nextDocument := 0

def openAt (b : Backend σ) (path : String) (clock : Float) (store : σ) :
    Except ExecutionError (Database σ) × σ :=
  let work : StoreM σ Catalog := do
    b.openStore path
    Catalog.load b
  match work.run store with
  | (.ok catalog, store) => (.ok (ofStore store catalog clock), store)
  | (.error e, store) => (.error e, store)

/-- A request is done. -/
def finish (db : Database σ) (request : Nat) (outcome : Outcome) : Database σ :=
  { db with finished := db.finished ++ [(request, outcome)] }

/-- Give the worker a job of a request, and wait for it. -/
def ask (b : Backend σ) (db : Database σ) (request : Nat) (work : Work)
    (transaction : Option TransactionId) (stage : Stage) : List Run × Database σ :=
  let (runs, worker) := db.worker.submit b ⟨request, work, transaction⟩
  (runs, { db with worker, tasks := db.tasks ++ [⟨request, stage⟩] })

/-- Documents under new ids. -/
def withIds (db : Database σ) (docs : List Json) : List (String × Json) :=
  docs.zipIdx.map fun (doc, i) => (Uuid.ofBits (db.nextDocument + i), doc)

/-- Give the right to write to the first request that gets as far as opening its transaction. -/
def startWriters (b : Backend σ) : List Writer → Database σ → List Run × Database σ
  | [], db => ([], { db with writing := false, writers := [] })
  | w :: rest, db =>
    let prepared :=
      Insertion.prepare db.catalog db.clock w.fact (db.withIds w.docs) db.nextTransaction
    let db := { db with nextDocument := db.nextDocument + w.docs.length }
    match prepared with
    | .error e => startWriters b rest (db.finish w.request (.failed e))
    | .ok i =>
      let db := { db with
        writing := true, writers := rest, nextTransaction := db.nextTransaction + 1 }
      db.ask b w.request .start (some i.transaction) (.opening i)

/-- Go on with a request whose job has been run. -/
def resume (b : Backend σ) (db : Database σ) (task : Task)
    (result : Except ExecutionError Rows) : List Run × Database σ :=
  let db := { db with tasks := db.tasks.filter fun t => t.request != task.request }
  match task.stage.next result db.catalog with
  | .ask work transaction stage => db.ask b task.request work transaction stage
  | .done outcome catalog =>
    let db := { db with catalog }.finish task.request outcome
    if task.stage.isWriting then startWriters b db.writers db else ([], db)

/-- Go on with the requests whose jobs have been run, until all of them wait or are done. -/
def settleFrom (b : Backend σ) : Nat → List Run → Database σ → Database σ
  | 0, _, db => db
  | _, [], db => db
  | fuel + 1, run :: runs, db =>
    match db.tasks.find? fun t => t.request == run.job.ticket with
    | none => settleFrom b fuel runs db
    | some task =>
      let (more, db) := db.resume b task run.result
      settleFrom b fuel (runs ++ more) db

/-- The most jobs that can be run before all requests wait or are done: those that have been, those
    that wait, and the three of every request that writes. -/
def jobsLeft (runs : List Run) (db : Database σ) : Nat :=
  runs.length + db.worker.deferred.length + 3 * (db.tasks.length + db.writers.length) + 1

/-- Go on with the requests whose jobs have been run. -/
def settle (b : Backend σ) (runs : List Run) (db : Database σ) : Database σ :=
  settleFrom b (jobsLeft runs db) runs db

/-- Begin a request. -/
def start (b : Backend σ) (db : Database σ) (id : Nat) : Request → List Run × Database σ
  | .query jx =>
    match db.catalog.plan db.clock jx with
    | .error e => ([], db.finish id (.failed e))
    | .ok (q, plan) => db.ask b id (.query (.plain plan.sql.render)) none (.answering q plan)
  | .sql text => db.ask b id (.query (.plain text)) none .fetching
  | .insert fact docs =>
    if db.writing then ([], { db with writers := db.writers ++ [⟨id, fact, docs⟩] })
    else startWriters b [⟨id, fact, docs⟩] db
  | .flush =>
    let (columns, catalog) := db.catalog.takePending
    if columns.isEmpty then ([], db.finish id (.flushed 0))
    else
      { db with catalog }.ask b id (.execute (columns.flatMap Column.statements)) none
        (.flushing columns)
  | .begin =>
    let transaction := db.nextTransaction
    { db with nextTransaction := transaction + 1 }.ask b id .start (some transaction)
      (.beginning transaction)

/-- Take a request, and go as far as possible. -/
def request (b : Backend σ) (db : Database σ) (r : Request) : Nat × Database σ :=
  let id := db.nextRequest
  let (runs, db) := { db with nextRequest := id + 1 }.start b id r
  (id, db.settle b runs)

/-- Do work in a transaction that is open, and go on with all requests that were waiting for it. -/
def inTransaction (b : Backend σ) (db : Database σ) (transaction : TransactionId) (work : Work) :
    Except ExecutionError Rows × Database σ :=
  let id := db.nextRequest
  let (runs, worker) := db.worker.submit b ⟨id, work, some transaction⟩
  let result :=
    match runs.find? fun run => run.job.ticket == id with
    | some run => run.result
    | none => .error .stopped
  (result, { db with worker, nextRequest := id + 1 }.settle b runs)

/-- Leave the requests that wait without an answer. Jobs that the worker has
    are run all the same. -/
def abandon (db : Database σ) : Database σ :=
  { db with tasks := [], writers := [] }

/-- Close the database: undo the transactions that are open, write the records
    of changed columns, and stop. -/
def close (b : Backend σ) (db : Database σ) (transactions : List TransactionId) : σ :=
  let db := transactions.foldl (fun db t => (db.inTransaction b t .rollback).2) db.abandon
  let columns := db.catalog.takePending.1
  let worker :=
    if columns.isEmpty then db.worker
    else (db.worker.submit b ⟨db.nextRequest, .execute (columns.flatMap Column.statements), none⟩).2
  worker.stop b

end Database

end Snowbank
