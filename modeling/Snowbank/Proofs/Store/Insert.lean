import Snowbank.Proofs.Snowflake.Growth
import Snowbank.Proofs.Store.Catalog
import Snowbank.Proofs.Store.Trace
import Snowbank.Proofs.Worker.Replay
import Snowbank.Store.Script

/-!
# Insertion is All or Nothing

An insertion into a database that is doing nothing else goes through its
stages without waiting, so all that it does to the store is one transaction: the
stages, the queue of the worker and the bookkeeping of requests drop out.

From there the statement is about what was sent. If the transaction was kept
then everything was sent, in order, and the catalog takes the new snowflake. In
every other case there is an error, and the catalog is what it was, although
the snowflake had already grown.

## Main definitions

* `StoredWhole`: Everything was written, and the catalog took it.
* `LeftAlone`: Nothing was kept, and the catalog does not change.

## Theorems

* `request_insert`: An insertion is one transaction, for any backend.
* `insert_all_or_nothing`: It is stored whole or left alone.
-/

namespace Snowbank

open List Worker Statement SchemaChange

section

variable {σ : Type} {b : Backend σ}

variable {w : Worker σ}

theorem Worker.with_deferred {jobs : List Job} (h : w.deferred = jobs) :
    { w with deferred := jobs } = w := by
  rw [← h]

/-- Where no job waits, a job that is not blocked is run alone. -/
theorem Worker.submit_alone {job : Job} (hwaits : w.deferred = []) (hfree : w.blocks job = false) :
    w.submit b job = ([(w.run b job).1], (w.run b job).2) := by
  cases hends : releases job.work with
  | true =>
    have hnone : (w.run b job).2.deferred = [] := by rw [deferred_run hfree, hwaits]
    rw [submit_of_releases hfree hends, hwaits, replay, with_deferred hnone]
  | false => exact submit_of_not_releases hfree hends

end

namespace Database

variable {σ : Type} {b : Backend σ} {db : Database σ}

/-- No transaction is open, and no job or request waits. -/
structure Idle (db : Database σ) : Prop where
  closed : db.worker.current = none
  noJobs : db.worker.deferred = []
  noTasks : db.tasks = []
  notWriting : db.writing = false
  noWriters : db.writers = []

/-- Give the worker a job of a request, and go on with what comes of it. -/
def proceed (b : Backend σ) (fuel : Nat) (db : Database σ) (request : Nat) (work : Work)
    (transaction : Option TransactionId) (stage : Stage) : Database σ :=
  settleFrom b fuel (db.ask b request work transaction stage).1
    (db.ask b request work transaction stage).2

section

variable {request : Nat} {work : Work} {transaction : Option TransactionId} {stage : Stage}
  (htasks : db.tasks = []) (hwaits : db.worker.deferred = [])
  (hfree : db.worker.blocks ⟨request, work, transaction⟩ = false)

include htasks hwaits hfree

/-- A job that is run at once takes its request to the next stage. -/
theorem proceed_succ (fuel : Nat) : proceed b (fuel + 1) db request work transaction stage =
      match stage.next (db.worker.run b ⟨request, work, transaction⟩).1.result db.catalog with
      | .ask work' transaction' stage' =>
        proceed b fuel
        { db with worker := (db.worker.run b ⟨request, work, transaction⟩).2 } request
          work' transaction' stage'
      | .done outcome catalog =>
        let db :=
          { db with worker := (db.worker.run b ⟨request, work, transaction⟩).2, catalog }.finish
          request outcome
        let next := if stage.isWriting then startWriters b db.writers db else ([], db)
        settleFrom b fuel next.1 next.2 := by
  obtain ⟨worker, catalog, clock, tasks, writing, writers, finished, r, t, d⟩ := db
  cases htasks
  unfold proceed ask
  rw [submit_alone hwaits hfree]
  simp only [nil_append, settleFrom, find?_cons, job_run, beq_self_eq_true, resume,
    filter_cons, bne_self_eq_false, Bool.false_eq_true, if_false, filter_nil]
  cases stage.next (worker.run b ⟨request, work, transaction⟩).1.result catalog with
  | ask work' transaction' stage' | done outcome catalog' => rfl

variable {result : Except ExecutionError Rows} {after : Worker σ}
  (hrun : (db.worker.run b ⟨request, work, transaction⟩).1.result = result ∧
    (db.worker.run b ⟨request, work, transaction⟩).2 = after)

include hrun

theorem proceed_done {outcome : Outcome} {catalog : Catalog} (hwriters : db.writers = [])
    (hwrites : stage.isWriting)
    (hnext : stage.next result db.catalog = .done outcome catalog) (fuel : Nat) :
    proceed b (fuel + 1) db request work transaction stage = { db with
        worker := after
        catalog
        finished := db.finished ++ [(request, outcome)]
        writing := false } := by
  rw [proceed_succ htasks hwaits hfree, hrun.1, hnext, hwrites, hrun.2]
  simp only [if_true, finish, hwriters, startWriters]
  cases fuel <;> rfl

theorem proceed_next {work' : Work} {transaction' : Option TransactionId} {stage' : Stage}
    (hnext : stage.next result db.catalog = .ask work' transaction' stage') (fuel : Nat) :
    proceed b (fuel + 1) db request work transaction stage =
      proceed b fuel { db with worker := after } request work' transaction' stage' := by
  rw [proceed_succ htasks hwaits hfree, hrun.1, hnext, hrun.2]

end

section

variable {i : Insertion} {request : Nat} {store : σ}

variable {e : ExecutionError}

/-- What is left of a database when an insertion has been written. -/
def inserted (db : Database σ) (request : Nat) (i : Insertion) (store : σ) : Database σ := { db with
    worker := .ofStore store
    catalog := db.catalog.publish i.snowflake
    finished := db.finished ++ [(request, .inserted i.ids)]
    writing := false }

/-- What is left of a database when an insertion has failed. -/
def refused (db : Database σ) (request : Nat) (e : ExecutionError) (store : σ) : Database σ :=
  { db with
    worker := .ofStore store
    finished := db.finished ++ [(request, .failed e)]
    writing := false }

variable (htasks : db.tasks = []) (hwriters : db.writers = [])

include htasks hwriters

theorem idle_inserted : (db.inserted request i store).Idle := ⟨rfl, rfl, htasks, rfl, hwriters⟩

theorem idle_refused : (db.refused request e store).Idle := ⟨rfl, rfl, htasks, rfl, hwriters⟩

/-- Committing keeps what was written, or undoes it if the store refuses. -/
theorem proceed_committing (hworker : db.worker = ⟨store, some ⟨i.transaction, none⟩, []⟩)
    (fuel : Nat) :
    proceed b (fuel + 1) db request .commit (some i.transaction) (.committing i) =
      match b.command "COMMIT" store with
      | (.ok _, store) => db.inserted request i store
      | (.error e, store) => db.refused request e (b.command "ROLLBACK" store).2 := by
  have hfree : db.worker.blocks ⟨request, .commit, some i.transaction⟩ = false := by
    simp [hworker, Worker.blocks]
  have hwaits : db.worker.deferred = [] := by rw [hworker]
  cases hcommit : b.command "COMMIT" store with
  | mk result ended =>
    cases result with
    | ok _ =>
      refine proceed_done htasks hwaits hfree (?_ : _ = Except.ok [] ∧ _) hwriters rfl rfl fuel
      simp [hworker, Worker.run, Worker.endTransaction, Worker.keep, hcommit, Worker.ofStore]
    | error e =>
      refine proceed_done htasks hwaits hfree (?_ : _ = Except.error e ∧ _) hwriters rfl rfl fuel
      simp [hworker, Worker.run, Worker.endTransaction, Worker.keep, hcommit, Worker.ofStore]

/-- Undoing ends the transaction, whatever the store says. -/
theorem proceed_undoing {t : OpenTransaction} (hworker : db.worker = ⟨store, some t, []⟩)
    (fuel : Nat) : proceed b (fuel + 1) db request .rollback (some t.id) (.undoing e) =
      db.refused request e (b.command "ROLLBACK" store).2 := by
  have hfree : db.worker.blocks ⟨request, .rollback, some t.id⟩ = false := by
    simp [hworker, Worker.blocks]
  refine proceed_done htasks (by rw [hworker]) hfree ⟨rfl, ?_⟩ hwriters rfl rfl fuel
  obtain ⟨id, failed⟩ := t
  cases hback : b.command "ROLLBACK" store with
  | mk result ended =>
    cases failed <;> cases result <;>
      simp [hworker, Worker.run, Worker.endTransaction, Worker.undo, hback, Worker.ofStore]

/-- Writing is followed by a commit, or by undoing if a statement fails. -/
theorem proceed_writing (hworker : db.worker = ⟨store, some ⟨i.transaction, none⟩, []⟩)
    (fuel : Nat) :
    proceed b (fuel + 2) db request (.execute i.statements) (some i.transaction) (.writing i) =
      match b.sendAll i.statements store with
      | (.error e, store) => db.refused request e (b.command "ROLLBACK" store).2
      | (.ok _, store) =>
        match b.command "COMMIT" store with
        | (.ok _, store) => db.inserted request i store
        | (.error e, store) => db.refused request e (b.command "ROLLBACK" store).2 := by
  let job : Job := ⟨request, .execute i.statements, some i.transaction⟩
  have hfree : db.worker.blocks job = false := by simp [job, hworker, Worker.blocks]
  have hwaits : db.worker.deferred = [] := by rw [hworker]
  cases hsent : b.sendAll i.statements store with
  | mk result written =>
    cases result with
    | ok _ =>
      have hrun : (db.worker.run b job).1.result = .ok [] ∧
          (db.worker.run b job).2 = ⟨written, some ⟨i.transaction, none⟩, []⟩ := by
        simp [job, hworker, Worker.run, guarded, perform, hsent]
      rw [proceed_next htasks hwaits hfree hrun rfl]
      refine proceed_committing ?_ ?_ rfl fuel
      · exact htasks
      · exact hwriters
    | error e =>
      have hrun : (db.worker.run b job).1.result = .error e ∧
          (db.worker.run b job).2 = ⟨written, some ⟨i.transaction, some e.message⟩, []⟩ := by
        simp [job, hworker, Worker.run, guarded, perform, hsent]
      rw [proceed_next htasks hwaits hfree hrun rfl]
      refine proceed_undoing (t := ⟨i.transaction, some e.message⟩) ?_ ?_ rfl fuel
      · exact htasks
      · exact hwriters

/-- The jobs of an insertion that has been prepared, on a database where
    nothing else is going on, are one transaction. -/
theorem proceed_opening (hworker : db.worker = .ofStore store) (fuel : Nat) :
    proceed b (fuel + 3) db request .start (some i.transaction) (.opening i) =
      match b.transact i.statements store with
      | (.ok _, store) => db.inserted request i store
      | (.error e, store) => db.refused request e store := by
  have hfree : db.worker.blocks ⟨request, .start, some i.transaction⟩ = false := by
    rw [hworker]; rfl
  have hwaits : db.worker.deferred = [] := by rw [hworker]; rfl
  unfold Backend.transact
  cases hopen : b.command "BEGIN TRANSACTION" store with
  | mk result opened =>
    cases result with
    | error e =>
      refine proceed_done htasks hwaits hfree (?_ : _ = Except.error e ∧ _) hwriters rfl rfl _
      simp [hworker, Worker.run, Worker.openTransaction, Worker.ofStore, hopen]
    | ok _ =>
      have hrun : (db.worker.run b ⟨request, .start, some i.transaction⟩).1.result = .ok [] ∧
          (db.worker.run b ⟨request, .start, some i.transaction⟩).2 =
            ⟨opened, some ⟨i.transaction, none⟩, []⟩ := by
        simp [hworker, Worker.run, Worker.openTransaction, Worker.ofStore, hopen]
      rw [proceed_next htasks hwaits hfree hrun rfl]
      refine Eq.trans (proceed_writing ?_ ?_ rfl fuel) ?_
      · exact htasks
      · exact hwriters
      dsimp only
      cases b.sendAll i.statements opened with
      | mk result written =>
        cases result with
        | error e => rfl
        | ok _ =>
          dsimp only
          cases b.command "COMMIT" written with
          | mk result ended => cases result <;> rfl

theorem jobsLeft_opening (hworker : db.worker = .ofStore store) :
    jobsLeft (db.ask b request .start (some i.transaction) (.opening i)).1
      (db.ask b request .start (some i.transaction) (.opening i)).2 = 5 := by
  have hfree : db.worker.blocks ⟨request, .start, some i.transaction⟩ = false := by
    rw [hworker]; rfl
  have hwaits : db.worker.deferred = [] := by rw [hworker]; rfl
  simp [jobsLeft, ask, submit_alone hwaits hfree, deferred_run hfree, hwaits, htasks, hwriters]

omit htasks hwriters in
theorem request_insert (hidle : db.Idle) (fact : String) (docs : List Json) :
    let counted := { db with
      nextRequest := db.nextRequest + 1
      nextDocument := db.nextDocument + docs.length }
    (db.request b (.insert fact docs)).2 =
      match Insertion.prepare db.catalog db.clock fact (db.withIds docs) db.nextTransaction with
      | .error e => counted.refused db.nextRequest e db.worker.store
      | .ok i =>
        let counted := { counted with nextTransaction := db.nextTransaction + 1 }
        match b.transact i.statements db.worker.store with
        | (.ok _, store) => counted.inserted db.nextRequest i store
        | (.error e, store) => counted.refused db.nextRequest e store := by
  obtain ⟨⟨store, current, deferred⟩, catalog, clock, tasks, writing, writers, finished,
    r, t, d⟩ := db
  obtain ⟨hclosed, hwaits, htasks, hwriting, hwriters⟩ := hidle
  subst hclosed hwaits htasks hwriting hwriters
  intro counted
  simp only [Database.request, start, Bool.false_eq_true, if_false, startWriters, withIds]
  cases Insertion.prepare catalog clock fact
    (docs.zipIdx.map fun item => (Uuid.ofBits (d + item.2), item.1)) t with
  | error e => rfl
  | ok i =>
    dsimp only
    rw [settle, jobsLeft_opening rfl rfl rfl]
    refine (proceed_opening rfl rfl rfl 2).trans ?_
    cases b.transact i.statements store with
    | mk result ended => cases result <;> rfl

end

end Database

/-- The snowflake that an insertion starts from: that of the fact, or an empty one. -/
def Catalog.startOf (c : Catalog) (clock : Float) (fact : String) : Snowflake :=
  { (c.snapshot? fact).getD (Snowflake.empty fact) with clock }

/-- The table of a fact that is not there yet. -/
def Catalog.createdFor (c : Catalog) (fact : String) : List SchemaChange :=
  if (c.snapshot? fact).isSome then [] else [.create fact none]

theorem Catalog.fact_startOf {c : Catalog} {clock : Float} {fact : String} (h : c.Named) :
    (c.startOf clock fact).fact = fact := by
  unfold Catalog.startOf
  cases hfound : c.snapshot? fact with
  | none => rfl
  | some s => exact h fact s hfound

theorem Insertion.prepare_eq (c : Catalog) (clock : Float) (fact : String)
    (docs : List (String × Json)) (transaction : TransactionId) :
    prepare c clock fact docs transaction = match (c.startOf clock fact).shred docs with
      | (.error e, _) => .error (.schema e)
      | (.ok shredded, grown) => .ok ⟨transaction, docs.map Prod.fst,
          statementsOf (c.createdFor fact ++ shredded.changes) shredded.batches, grown⟩ := by
  unfold prepare Catalog.startOf Catalog.createdFor
  cases c.snapshot? fact <;> rfl

namespace Database

variable {σ : Type}

/-- Everything was written, in order, and the catalog took the snowflake that
    the documents made of the one it had. -/
def StoredWhole (before after : Database (σ × List Sent)) (fact : String) (docs : List Json)
    (sent : List Sent) : Prop :=
  ∃ changes batches grown, (before.catalog.startOf before.clock fact).shred (before.withIds docs) =
      (.ok ⟨changes, batches⟩, grown) ∧
    sent = [Sent.command "BEGIN TRANSACTION"] ++
      ((before.catalog.createdFor fact ++ changes).flatMap statements).map taken ++
      ((before.catalog.createdFor fact ++ changes).flatMap moves).map taken ++
      (batches.flatMap Batch.statements).map taken ++ [Sent.command "COMMIT"] ∧
    before.catalog.Takes after.catalog grown ∧ (before.catalog.Named → grown.fact = fact)

/-- Nothing was kept, and the catalog does not change. What was begun has been undone. -/
def LeftAlone (before after : Database (σ × List Sent)) (sent : List Sent) : Prop :=
  (∀ s ∈ sent, s.sql = "COMMIT" → s.taken = false) ∧ after.catalog = before.catalog ∧
    (sent = [] ∨ sent = [⟨"BEGIN TRANSACTION", [], false⟩] ∨
      ∃ done taken, sent = done ++ [⟨"ROLLBACK", [], taken⟩])

/-- Insertion is all or nothing, whatever the store does with the statements that it is sent. It
    succeeds exactly when a commit was taken, and then everything was written and the catalog has
    the new snowflake; otherwise there is an error and the catalog has not changed. No transaction
    is left open, and the database is idle again. -/
theorem insert_all_or_nothing (b : Backend σ) (db : Database (σ × List Sent)) (hidle : db.Idle)
    (fact : String) (docs : List Json) :
    let (id, after) := db.request b.traced (.insert fact docs)
    ∃ outcome sent, after.finished = db.finished ++ [(id, outcome)] ∧
      after.worker.store.2 = db.worker.store.2 ++ sent ∧ after.Idle ∧
      ((∃ ids, outcome = .inserted ids) ↔ ∃ s ∈ sent, s.sql = "COMMIT" ∧ s.taken = true) ∧
      (outcome = .inserted ((db.withIds docs).map Prod.fst) ∧ db.StoredWhole after fact docs sent ∨
        (∃ e, outcome = .failed e) ∧ db.LeftAlone after sent) := by
  have hafter := request_insert (b := b.traced) hidle fact docs
  have hid : (db.request b.traced (.insert fact docs)).1 = db.nextRequest := rfl
  generalize db.request b.traced (.insert fact docs) = answer at hafter hid ⊢
  rcases answer with ⟨id, after⟩
  rcases hstore : db.worker.store with ⟨store, log⟩
  rcases hshred : (db.catalog.startOf db.clock fact).shred (db.withIds docs) with ⟨result, grown⟩
  rw [Insertion.prepare_eq, hshred, hstore] at hafter
  dsimp only at hid hafter ⊢
  subst hid
  cases result with
  -- documents that cannot be stored: nothing is sent
  | error e =>
    subst hafter
    refine ⟨.failed (.schema e), [], rfl, (List.append_nil _).symm,
      idle_refused hidle.noTasks hidle.noWriters, ?_, Or.inr ⟨⟨_, rfl⟩, ?_, rfl, Or.inl rfl⟩⟩
    · simp
    · simp
  | ok shredded =>
    dsimp only at hafter
    rcases b.traced_transact store log
      (Insertion.statementsOf (db.catalog.createdFor fact ++ shredded.changes)
        shredded.batches) with
      ⟨ended, hsent⟩ | ⟨e, ended, sent, hsent, htaken, hends⟩
    · rw [hsent] at hafter
      subst hafter
      refine ⟨.inserted ((db.withIds docs).map Prod.fst), _, rfl, rfl,
        idle_inserted hidle.noTasks hidle.noWriters, ?_, Or.inl ⟨rfl, shredded.changes,
          shredded.batches, grown, hshred, ?_, Catalog.takes_publish _ _, fun hnamed => ?_⟩⟩
      · simp [Sent.command]
      · simp [Insertion.statementsOf]
      · have hkept := Snowflake.fact_shred (db.catalog.startOf db.clock fact) (db.withIds docs)
        rw [hshred] at hkept
        rw [hkept]
        exact Catalog.fact_startOf hnamed
    · rw [hsent] at hafter
      subst hafter
      -- no commit was taken: what was taken are other statements
      have hnone : ∀ s ∈ sent, s.sql = "COMMIT" → s.taken = false := by
        intro s hs hcommit
        rw [← Bool.not_eq_true]
        intro hkept
        rcases htaken s hs hkept with hbegin | hback | hstatement
        · rw [hbegin] at hcommit
          exact absurd hcommit (by decide)
        · rw [hback] at hcommit
          exact absurd hcommit (by decide)
        · rcases List.mem_map.mp hstatement with ⟨statement, hmem, rfl⟩
          exact Insertion.sql_ne_commit hmem hcommit
      refine ⟨.failed e, sent, rfl, rfl, idle_refused hidle.noTasks hidle.noWriters, ?_,
        Or.inr ⟨⟨_, rfl⟩, hnone, rfl, Or.inr hends⟩⟩
      constructor
      · rintro ⟨ids, hids⟩
        cases hids
      · rintro ⟨s, hs, hcommit, hkept⟩
        rw [hnone s hs hcommit] at hkept
        cases hkept

/-- A database on a store that refuses the first commit. -/
def refusingCommit : Database (Script × List Sent) :=
  .ofStore (.ofRules [⟨"COMMIT", "disk full", 1⟩] [], []) .empty 0.0

/-- Two documents for such a database, one of them with an array. -/
theorem insert_all_or_nothing_refusingCommit :
    refusingCommit.Idle ∧
      let docs : List Json :=
        [.obj [("a", .arr [.int 1, .int 2])], .obj [("a", .int 3), ("b", .null)]]
      let (id, after) := refusingCommit.request Script.backend.traced (.insert "t" docs)
      ∃ outcome sent, after.finished = refusingCommit.finished ++ [(id, outcome)] ∧
        after.worker.store.2 = refusingCommit.worker.store.2 ++ sent ∧ after.Idle ∧
        ((∃ ids, outcome = .inserted ids) ↔ ∃ s ∈ sent, s.sql = "COMMIT" ∧ s.taken = true) ∧
        (outcome = .inserted ((refusingCommit.withIds docs).map Prod.fst) ∧
            refusingCommit.StoredWhole after "t" docs sent ∨
          (∃ e, outcome = .failed e) ∧ refusingCommit.LeftAlone after sent) :=
  have hidle : refusingCommit.Idle := ⟨rfl, rfl, rfl, rfl, rfl⟩
  ⟨hidle, insert_all_or_nothing Script.backend refusingCommit hidle "t" _⟩

end Database

end Snowbank
