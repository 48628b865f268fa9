import Snowbank.Store.Backend

/-!
# The Worker

One worker owns the store and runs jobs in the order in which they come. While
a transaction is open, jobs that do not belong to it wait, and run in their
order once it has ended. One of them may open the next transaction, behind
which those after it wait again.

The first error in a transaction stays: everything after it fails with the
same cause, and it cannot be committed.
-/

namespace Snowbank

/-- What identifies a transaction. -/
abbrev TransactionId := Nat

/-- Work for the store. -/
inductive Work where
  | query (statement : Statement)
  | execute (statements : List Statement)
  | start
  | commit
  | rollback

/-- Work for the store, alone or in a transaction. The ticket says whose it is. -/
structure Job where
  ticket : Nat
  work : Work
  transaction : Option TransactionId

/-- The open transaction, and the first error in it. -/
structure OpenTransaction where
  id : TransactionId
  failed : Option String

/-- A job that was run: the transaction that was open when it began, and what came of it. -/
structure Run where
  job : Job
  during : Option TransactionId
  result : Except ExecutionError Rows

/-- The store, the open transaction and the jobs that wait for its end. -/
structure Worker (σ : Type) where
  store : σ
  current : Option OpenTransaction
  deferred : List Job

namespace Worker

variable {σ : Type}

/-- The worker of a store that has just been opened. -/
def ofStore (store : σ) : Worker σ := ⟨store, none, []⟩

/-- The transaction that is open. -/
def currentId (w : Worker σ) : Option TransactionId := w.current.map OpenTransaction.id

/-- A transaction is open to which the job does not belong. -/
def blocks (w : Worker σ) (job : Job) : Bool :=
  match w.current with
  | some t => job.transaction != some t.id
  | none => false

def notOpen : ExecutionError := .transaction "transaction is not open"

def openTransaction (b : Backend σ) (w : Worker σ) (transaction : Option TransactionId) :
    Except ExecutionError Rows × Worker σ :=
  match transaction with
  | none => (.error (.transaction "BEGIN without a transaction"), w)
  | some id =>
    match b.command "BEGIN TRANSACTION" w.store with
    | (.ok _, store) => (.ok [], { w with store, current := some ⟨id, none⟩ })
    | (.error e, store) => (.error e, { w with store })

/-- End the transaction without keeping what it did. -/
def undo (b : Backend σ) (w : Worker σ) (onSuccess : Except ExecutionError Rows) :
    Except ExecutionError Rows × Worker σ :=
  match b.command "ROLLBACK" w.store with
  | (.ok _, store) => (onSuccess, { w with store, current := none })
  | (.error e, store) => (.error e, { w with store, current := none })

/-- Keep what the transaction did, or undo it if the store refuses. -/
def keep (b : Backend σ) (w : Worker σ) : Except ExecutionError Rows × Worker σ :=
  match b.command "COMMIT" w.store with
  | (.ok _, store) => (.ok [], { w with store, current := none })
  | (.error e, store) =>
    let (_, store) := b.command "ROLLBACK" store
    (.error e, { w with store, current := none })

/-- End a transaction. One in which something failed is never kept. -/
def endTransaction (b : Backend σ) (w : Worker σ) (transaction : Option TransactionId)
    (commit : Bool) : Except ExecutionError Rows × Worker σ :=
  match w.current with
  | none => (.error notOpen, w)
  | some t =>
    if transaction != some t.id then (.error notOpen, w)
    else
      match t.failed with
      | none => if commit then w.keep b else w.undo b (.ok [])
      | some cause => w.undo b (if commit then .error (.transaction cause) else .ok [])

/-- Work on the store, apart from transactions. -/
def perform (b : Backend σ) (work : Work) (store : σ) : Except ExecutionError Rows × σ :=
  match work with
  | .query s => b.fetch s store
  | .execute ss =>
    match b.sendAll ss store with
    | (.ok _, store) => (.ok [], store)
    | (.error e, store) => (.error e, store)
  | _ => (.ok [], store)

/-- Work in a transaction, if the job belongs to one. Nothing is done after an
    error, and the first error is kept. -/
def guarded (b : Backend σ) (w : Worker σ) (transaction : Option TransactionId) (work : Work) :
    Except ExecutionError Rows × Worker σ :=
  match transaction with
  | none =>
    let (result, store) := perform b work w.store
    (result, { w with store })
  | some id =>
    match w.current with
    | none => (.error notOpen, w)
    | some t =>
      if t.id != id then (.error notOpen, w)
      else
        match t.failed with
        | some cause => (.error (.transaction cause), w)
        | none =>
          match perform b work w.store with
          | (.ok rows, store) => (.ok rows, { w with store })
          | (.error e, store) =>
            (.error e, { w with store, current := some ⟨id, some e.message⟩ })

/-- The work ends a transaction, or would. -/
def releases : Work → Bool
  | .commit | .rollback => true
  | _ => false

def run (b : Backend σ) (w : Worker σ) (job : Job) : Run × Worker σ :=
  let (result, after) :=
    match job.work with
    | .start => w.openTransaction b job.transaction
    | .commit => w.endTransaction b job.transaction true
    | .rollback => w.endTransaction b job.transaction false
    | work => w.guarded b job.transaction work
  (⟨job, w.currentId, result⟩, after)

/-- Run jobs in order, putting aside those that have to wait. When a
    transaction ends, those put aside come first again. -/
def replay (b : Backend σ) (w : Worker σ) (aside pending : List Job) :
    List Run × Worker σ :=
  match pending with
  | [] => ([], { w with deferred := aside })
  | job :: rest =>
    if w.blocks job then replay b w (aside ++ [job]) rest
    else
      let (done, after) := w.run b job
      let (more, last) :=
        if releases job.work then replay b after [] (aside ++ rest) else replay b after aside rest
      (done :: more, last)
termination_by (aside.length + pending.length, pending.length)
decreasing_by
  · simp_wf
    rw [Prod.lex_def]
    omega
  · exact Prod.Lex.left _ _ (by simp)
  · exact Prod.Lex.left _ _ (by simp)

/-- Take a job: it waits, or it runs, and if it ends a transaction those that
    waited run too. All jobs that were run are returned, in order. -/
def submit (b : Backend σ) (w : Worker σ) (job : Job) : List Run × Worker σ :=
  if w.blocks job then ([], { w with deferred := w.deferred ++ [job] })
  else
    let (done, after) := w.run b job
    if releases job.work then
      let (more, last) := after.replay b [] after.deferred
      (done :: more, last)
    else ([done], after)

/-- Stop. A transaction that is still open is undone, and the jobs that wait
    for its end are lost. -/
def stop (b : Backend σ) (w : Worker σ) : σ :=
  match w.current with
  | some _ => (b.command "ROLLBACK" w.store).2
  | none => w.store

end Worker

end Snowbank
