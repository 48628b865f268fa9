import Snowbank.Plan.Compile
import Snowbank.Response.Assemble
import Snowbank.Store.Catalog
import Snowbank.Store.Worker

/-!
# Requests

A request to a database is work for its worker, one job after the other, with
something to do with the catalog before the first job and after the last. A
request is therefore described by the stage that it is in: which job it waits
for, and what it has to remember until then.

An insertion opens a transaction, writes everything in it, and commits. If
something cannot be written it undoes the transaction and fails. The catalog
takes the new snowflake only when the transaction has been committed.
-/

namespace Snowbank

/-- What can be asked of a database. -/
inductive Request where
  | query (jx : Json)
  | sql (text : String)
  | insert (fact : String) (docs : List Json)
  /-- Write the records of changed columns. -/
  | flush
  | begin

/-- What comes of a request. -/
inductive Outcome where
  | answer (value : Json)
  | rows (rows : Rows)
  /-- The ids of the documents. -/
  | inserted (ids : List String)
  /-- How many records were written. -/
  | flushed (count : Nat)
  | begun (id : TransactionId)
  | failed (error : ExecutionError)

/-- What inserting documents takes. -/
structure Insertion where
  transaction : TransactionId
  ids : List String
  statements : List Statement
  snowflake : Snowflake

namespace Insertion

/-- All statements of changes of the schema and of rows: first the tables,
    then the rows that move, then the new rows. -/
def statementsOf (changes : List SchemaChange) (batches : List Batch) : List Statement :=
  changes.flatMap SchemaChange.statements ++ changes.flatMap SchemaChange.moves ++
    batches.flatMap Batch.statements

/-- What inserting documents into a fact takes. A fact that is not there is created. -/
def prepare (catalog : Catalog) (clock : Float) (fact : String) (docs : List (String × Json))
    (transaction : TransactionId) : Except ExecutionError Insertion :=
  let (snowflake, created) :=
    match catalog.snapshot? fact with
    | some s => (s, [])
    | none => (Snowflake.empty fact, [SchemaChange.create fact none])
  match { snowflake with clock }.shred docs with
  | (.error e, _) => .error (.schema e)
  | (.ok shredded, snowflake) =>
    .ok ⟨transaction, docs.map Prod.fst,
      statementsOf (created ++ shredded.changes) shredded.batches, snowflake⟩

end Insertion

/-- What a request waits for. -/
inductive Stage where
  | answering (query : Query) (plan : Plan)
  | fetching
  | flushing (columns : List Column)
  | beginning (id : TransactionId)
  | opening (insertion : Insertion)
  | writing (insertion : Insertion)
  | undoing (error : ExecutionError)
  | committing (insertion : Insertion)

/-- What a request does next: it has another job, or it is done. -/
inductive Next where
  | ask (work : Work) (transaction : Option TransactionId) (stage : Stage)
  | done (outcome : Outcome) (catalog : Catalog)

namespace Stage

/-- The request holds the right to write. -/
def isWriting : Stage → Bool
  | opening _ | writing _ | undoing _ | committing _ => true
  | _ => false

/-- The answer to a query, from the rows of its result. -/
def answerOf (query : Query) (plan : Plan) (rows : Rows) : Outcome :=
  match plan.assemble query rows with
  | .ok value => .answer value
  | .error e => .failed (.compile e)

/-- What a request does when its job has been run. -/
def next (stage : Stage) (result : Except ExecutionError Rows) (catalog : Catalog) : Next :=
  match stage, result with
  | answering query plan, .ok rows => .done (answerOf query plan rows) catalog
  | fetching, .ok rows => .done (.rows rows) catalog
  | flushing columns, .ok _ => .done (.flushed columns.length) catalog
  | flushing columns, .error e => .done (.failed e) (catalog.requeue columns)
  | beginning id, .ok _ => .done (.begun id) catalog
  | opening i, .ok _ => .ask (.execute i.statements) (some i.transaction) (writing i)
  | writing i, .ok _ => .ask .commit (some i.transaction) (committing i)
  | writing i, .error e => .ask .rollback (some i.transaction) (undoing e)
  | undoing e, _ => .done (.failed e) catalog
  | committing i, .ok _ => .done (.inserted i.ids) (catalog.publish i.snowflake)
  | _, .error e => .done (.failed e) catalog

end Stage

/-- The query and the plan of a question. -/
def Catalog.plan (catalog : Catalog) (clock : Float) (jx : Json) :
    Except ExecutionError (Query × Plan) := do
  let s ← catalog.resolve jx
  let q ← (Query.ofJson clock s.schema jx).mapError .query
  let plan ← (q.plan s).mapError .compile
  return (q, plan)

end Snowbank
