import Mathlib.Data.List.Perm.Basic
import Mathlib.Tactic.Ring
import Snowbank.Service.Session

/-!
# Jobs That Wait

A worker neither loses a job nor runs one twice, whatever its store does with
the statements it is given. What carries the argument is one fact about the
jobs that wait: each of them is blocked by the transaction that is open. A
worker without a transaction blocks nothing, so nothing waits there, and a job
of the open transaction is not blocked by it, so it does not wait either.

Replaying keeps the fact although it moves jobs between two lists. Jobs are
put aside because they are blocked. Running a job that is not blocked changes
which transaction is open only where none was, and then nothing had been put
aside, or by ending the one that was, and then all that had been put aside
comes back into the list that is still to be run.

The loop does not get shorter in the list that it takes jobs from, as that one
is refilled. It does get shorter in the jobs that are left, and in those still
to be looked at while no job is run.

## Main definitions

* `AllBlocked`: The open transaction blocks every job of the list.
* `Round`: The state of the loop.
* `submitAll`: Submit jobs one after the other.

## Theorems

* `AllBlocked.run`: A job that does not end the transaction keeps that.
* `submitAll_accounts`: No job is lost, run twice or left behind.
-/

namespace Snowbank.Worker

open List Option Bool

variable {σ : Type} {b : Backend σ} {w : Worker σ} {job : Job}
variable {jobs : List Job}

theorem blocks_eq_true_iff :
    w.blocks job ↔ ∃ id, w.currentId = some id ∧ job.transaction ≠ some id := by
  unfold blocks currentId
  cases w.current with
  | none | some t => simp

theorem blocks_eq_false_iff :
    w.blocks job = false ↔ w.currentId = none ∨ job.transaction = w.currentId := by
  unfold blocks currentId
  cases w.current with
  | none | some t => simp

/-- Which jobs are blocked depends on the open transaction alone. -/
theorem blocks_congr {v : Worker σ} (h : v.currentId = w.currentId) :
    v.blocks job = w.blocks job := by
  rw [Bool.eq_iff_iff, blocks_eq_true_iff, blocks_eq_true_iff, h]

/-- The open transaction blocks every job of the list. -/
def AllBlocked (w : Worker σ) (jobs : List Job) : Prop := ∀ job ∈ jobs, w.blocks job

theorem allBlocked_nil (w : Worker σ) : w.AllBlocked [] := forall_mem_nil _

theorem AllBlocked.concat (h : w.AllBlocked jobs) (hjob : w.blocks job) :
    w.AllBlocked (jobs ++ [job]) := by
  intro other hother
  rcases mem_append.1 hother with hother | hother
  · exact h other hother
  · rw [mem_singleton.1 hother]
    exact hjob

theorem AllBlocked.eq_nil (h : w.AllBlocked jobs) (hnone : w.currentId = none) : jobs = [] := by
  refine eq_nil_iff_forall_not_mem.2 fun job hjob => ?_
  obtain ⟨id, hid, _⟩ := blocks_eq_true_iff.1 (h job hjob)
  rw [hnone] at hid
  cases hid

@[simp] theorem job_run : (w.run b job).1.job = job := rfl

@[simp] theorem during_run : (w.run b job).1.during = w.currentId := rfl

theorem openTransaction_spec (transaction : Option TransactionId) :
    (w.openTransaction b transaction).2.deferred = w.deferred ∧
      ((w.openTransaction b transaction).2.currentId = w.currentId ∨
        (w.openTransaction b transaction).2.currentId = transaction) := by
  unfold openTransaction
  cases transaction with
  | none => exact ⟨rfl, .inl rfl⟩
  | some id =>
    dsimp only
    split
    · exact ⟨rfl, .inr rfl⟩
    · exact ⟨rfl, .inl rfl⟩

theorem undo_spec (answer : Except ExecutionError Rows) :
    (w.undo b answer).2.deferred = w.deferred ∧ (w.undo b answer).2.current = none := by
  unfold undo
  split <;> exact ⟨rfl, rfl⟩

theorem keep_spec : (w.keep b).2.deferred = w.deferred ∧ (w.keep b).2.current = none := by
  unfold keep
  split <;> exact ⟨rfl, rfl⟩

/-- Whatever the store answers, no transaction is open after one has been
    ended. A job that is not blocked can only end the one that is open. -/
theorem endTransaction_spec (hfree : w.blocks job = false) (commit : Bool) :
    (w.endTransaction b job.transaction commit).2.deferred = w.deferred ∧
      (w.endTransaction b job.transaction commit).2.current = none := by
  unfold endTransaction
  cases hcurrent : w.current with
  | none => exact ⟨rfl, hcurrent⟩
  | some t =>
    have hmine : (job.transaction != some t.id) = false := by
      unfold blocks at hfree
      rw [hcurrent] at hfree
      exact hfree
    dsimp only
    rw [hmine]
    cases t.failed with
    | some cause => exact undo_spec _
    | none =>
      cases commit with
      | true => exact keep_spec
      | false => exact undo_spec _

/-- Work inside a transaction may mark it as failed and leaves it open. -/
theorem guarded_spec (transaction : Option TransactionId) (work : Work) :
    (w.guarded b transaction work).2.deferred = w.deferred ∧
      (w.guarded b transaction work).2.currentId = w.currentId := by
  unfold guarded
  cases transaction with
  | none => exact ⟨rfl, rfl⟩
  | some id =>
    cases hcurrent : w.current with
    | none => exact ⟨rfl, rfl⟩
    | some t =>
      dsimp only
      split
      · exact ⟨rfl, rfl⟩
      next hsame =>
        cases t.failed with
        | some cause => exact ⟨rfl, rfl⟩
        | none =>
          dsimp only
          split
          · exact ⟨rfl, by rw [currentId, currentId, hcurrent]⟩
          · refine ⟨rfl, ?_⟩
            -- the transaction that is marked is the one that was open
            have hid : t.id = id := by simpa using hsame
            simp [currentId, hcurrent, hid]

section

variable (hfree : w.blocks job = false)
include hfree

@[simp] theorem deferred_run : (w.run b job).2.deferred = w.deferred := by
  unfold run
  cases job.work with
  | start => exact (openTransaction_spec _).1
  | commit => exact (endTransaction_spec hfree true).1
  | rollback => exact (endTransaction_spec hfree false).1
  | query s | execute ss => exact (guarded_spec _ _).1

theorem current_run_of_releases (hends : releases job.work) : (w.run b job).2.current = none := by
  unfold run
  cases hwork : job.work with
  | commit => exact (endTransaction_spec hfree true).2
  | rollback => exact (endTransaction_spec hfree false).2
  | start | query | execute =>
    rw [hwork] at hends
    cases hends

/-- A job that ends nothing leaves the open transaction as it is; where none
    is open it may open its own. -/
theorem currentId_run (hends : releases job.work = false)
    {held : TransactionId} (hopen : w.currentId = some held) :
    (w.run b job).2.currentId = w.currentId := by
  have hmine : job.transaction = w.currentId := by
    rcases blocks_eq_false_iff.1 hfree with hnone | hmine
    · rw [hnone] at hopen
      cases hopen
    · exact hmine
  unfold run
  cases hwork : job.work with
  | start => exact (openTransaction_spec (b := b) job.transaction).2.elim id (·.trans hmine)
  | query s | execute ss => exact (guarded_spec _ _).2
  | commit | rollback =>
    rw [hwork] at hends
    cases hends

end

theorem AllBlocked.run (h : w.AllBlocked jobs) (hfree : w.blocks job = false)
    (hends : releases job.work = false) : (w.run b job).2.AllBlocked jobs := by
  intro other hother
  obtain ⟨id, hopen, _⟩ := blocks_eq_true_iff.1 (h other hother)
  rw [blocks_congr (currentId_run hfree hends hopen)]
  exact h other hother

/-- Induction along the turns of the loop: a job is put aside, or it is run
    and ends a transaction, or it is run and ends none. -/
theorem replay_induction {Q : Worker σ → List Job → List Job → List Run → Worker σ → Prop}
    (done : ∀ w aside, Q w aside [] [] { w with deferred := aside })
    (waits : ∀ {w aside job rest runs last}, w.blocks job →
      Q w (aside ++ [job]) rest runs last → Q w aside (job :: rest) runs last)
    (ends : ∀ {w aside job rest runs last}, w.blocks job = false → releases job.work →
      Q (w.run b job).2 [] (aside ++ rest) runs last →
      Q w aside (job :: rest) ((w.run b job).1 :: runs) last)
    (goesOn : ∀ {w aside job rest runs last}, w.blocks job = false → releases job.work = false →
      Q (w.run b job).2 aside rest runs last →
      Q w aside (job :: rest) ((w.run b job).1 :: runs) last)
    (w : Worker σ) (aside pending : List Job) :
    Q w aside pending (w.replay b aside pending).1 (w.replay b aside pending).2 := by
  induction w, aside, pending using replay.induct (b := b) with
  | case1 w aside =>
    rw [replay]
    exact done w aside
  | case2 w aside job rest hblocked ih =>
    rw [replay, if_pos hblocked]
    exact waits hblocked ih
  | case3 w aside job rest hfree ran after hran more last _ ihEnds ihGoesOn =>
    have hfree' : w.blocks job = false := by simpa using hfree
    have hsnd : after = (w.run b job).2 := by rw [hran]
    rw [replay, if_neg hfree]
    dsimp only
    cases hends : releases job.work with
    | true =>
      rw [if_pos rfl]
      exact ends hfree' hends (hsnd ▸ ihEnds)
    | false =>
      rw [if_neg Bool.false_ne_true]
      exact goesOn hfree' hends (hsnd ▸ ihGoesOn)

theorem allBlocked_replay {aside : List Job} (pending : List Job) (h : w.AllBlocked aside) :
    (w.replay b aside pending).2.AllBlocked (w.replay b aside pending).2.deferred := by
  refine replay_induction (b := b)
    (Q := fun w aside _ _ last => w.AllBlocked aside → last.AllBlocked last.deferred)
    ?_ ?_ ?_ ?_ w aside pending h
  · intro w aside h
    exact h
  · intro w aside job rest runs last hblocked ih h
    exact ih (h.concat hblocked)
  · intro w aside job rest runs last hfree hends ih _
    exact ih (allBlocked_nil _)
  · intro w aside job rest runs last hfree hends ih h
    exact ih (h.run hfree hends)

/-- Replaying splits the jobs it is given into those that were run and those that wait. -/
theorem perm_replay (b : Backend σ) (w : Worker σ) (aside pending : List Job) :
    ((w.replay b aside pending).1.map Run.job ++ (w.replay b aside pending).2.deferred).Perm
      (aside ++ pending) := by
  refine replay_induction (b := b) (Q := fun _ aside pending runs last =>
      (runs.map Run.job ++ last.deferred).Perm (aside ++ pending)) ?_ ?_ ?_ ?_ w aside pending
  · intro w aside
    simp
  · intro w aside job rest runs last _ ih
    simpa using ih
  · intro w aside job rest runs last _ _ ih
    rw [nil_append] at ih
    exact (ih.cons job).trans perm_middle.symm
  · intro w aside job rest runs last _ _ ih
    exact (ih.cons job).trans perm_middle.symm

/-- The state of the loop: the worker, the jobs put aside and those still to be looked at. -/
structure Round (σ : Type) where
  worker : Worker σ
  aside : List Job
  pending : List Job

namespace Round

/-- One turn of the loop, if there is a job to look at. -/
def next? (b : Backend σ) (r : Round σ) : Option (Round σ) := match r.pending with
  | [] => none
  | job :: rest =>
    if r.worker.blocks job then some ⟨r.worker, r.aside ++ [job], rest⟩
    else if releases job.work then some ⟨(r.worker.run b job).2, [], r.aside ++ rest⟩
    else some ⟨(r.worker.run b job).2, r.aside, rest⟩

/-- The state of the loop after a number of turns, if it takes that many. -/
def after? (b : Backend σ) : Nat → Round σ → Option (Round σ)
  | 0, r => some r
  | n + 1, r => (r.next? b).bind (after? b n)

end Round

theorem square_succ (m n : Nat) :
    (m + (n + 1)) * (m + (n + 1)) = (m + n) * (m + n) + 2 * (m + n) + 1 := by
  ring

/-- The loop ends, and what it leaves is what `replay` gives. -/
theorem exists_rounds (b : Backend σ) (w : Worker σ) (aside pending : List Job) :
    ∃ n last, Round.after? b n ⟨w, aside, pending⟩ = some last ∧ last.next? b = none ∧
      (w.replay b aside pending).2 = { last.worker with deferred := last.aside } ∧
      2 * n + (aside.length + pending.length) ≤
        2 * pending.length + (aside.length + pending.length) * (aside.length + pending.length) := by
  -- a turn that runs a job makes the jobs left fewer, and there are at most as
  -- many other turns between two of these as there are jobs left
  refine replay_induction (b := b) (Q := fun w aside pending _ final =>
      ∃ n last, Round.after? b n ⟨w, aside, pending⟩ = some last ∧ last.next? b = none ∧
        final = { last.worker with deferred := last.aside } ∧
        2 * n + (aside.length + pending.length) ≤ 2 * pending.length +
          (aside.length + pending.length) * (aside.length + pending.length))
    ?_ ?_ ?_ ?_ w aside pending
  · intro w aside
    refine ⟨0, ⟨w, aside, []⟩, rfl, rfl, rfl, ?_⟩
    have hsquare := Nat.le_mul_self aside.length
    simp only [length_nil, Nat.add_zero, Nat.mul_zero, Nat.zero_add]
    exact hsquare
  · -- a job is put aside: as many are left, and one fewer to be looked at
    intro w aside job rest runs final hblocked ih
    obtain ⟨n, last, hlast, hend, hfinal, hbound⟩ := ih
    refine ⟨n + 1, last, ?_, hend, hfinal, ?_⟩
    · simp only [Round.after?, Round.next?, hblocked, if_true, bind_some]
      exact hlast
    · simp only [length_append, length_cons, length_nil] at hbound ⊢
      have hsame : aside.length + (rest.length + 1) = aside.length + (0 + 1) + rest.length := by
        omega
      rw [hsame]
      omega
  · -- a job is run, after which all are to be looked at again
    intro w aside job rest runs final hfree hends ih
    obtain ⟨n, last, hlast, hend, hfinal, hbound⟩ := ih
    refine ⟨n + 1, last, ?_, hend, hfinal, ?_⟩
    · simp only [Round.after?, Round.next?, hfree, hends, if_true, false_eq_true, if_false,
        bind_some]
      exact hlast
    · simp only [length_append, length_cons, length_nil, Nat.zero_add] at hbound ⊢
      rw [square_succ]
      omega
  · intro w aside job rest runs final hfree hends ih
    obtain ⟨n, last, hlast, hend, hfinal, hbound⟩ := ih
    refine ⟨n + 1, last, ?_, hend, hfinal, ?_⟩
    · simp only [Round.after?, Round.next?, hfree, hends, false_eq_true, if_false,
        bind_some]
      exact hlast
    · simp only [length_cons] at hbound ⊢
      rw [square_succ]
      omega

/-- Replaying a queue ends. It takes at most as many turns as a triangle on the queue has points. -/
theorem replay_ends (b : Backend σ) (w : Worker σ) (queue : List Job) :
    ∃ n last, 2 * n ≤ queue.length * (queue.length + 1) ∧
      Round.after? b n ⟨w, [], queue⟩ = some last ∧ last.next? b = none ∧
      (w.replay b [] queue).2 = { last.worker with deferred := last.aside } := by
  obtain ⟨n, last, hlast, hend, hfinal, hbound⟩ := exists_rounds b w [] queue
  refine ⟨n, last, ?_, hlast, hend, hfinal⟩
  simp only [length_nil, Nat.zero_add] at hbound
  rw [Nat.mul_succ]
  omega

theorem submit_of_blocks (h : w.blocks job) :
    w.submit b job = ([], { w with deferred := w.deferred ++ [job] }) := by
  rw [submit, if_pos h]

theorem submit_of_releases (hfree : w.blocks job = false) (hends : releases job.work) :
    w.submit b job = ((w.run b job).1 :: ((w.run b job).2.replay b [] w.deferred).1,
      ((w.run b job).2.replay b [] w.deferred).2) := by
  simp [submit, hfree, hends]

theorem submit_of_not_releases (hfree : w.blocks job = false) (hends : releases job.work = false) :
    w.submit b job = ([(w.run b job).1], (w.run b job).2) := by
  simp [submit, hfree, hends]

theorem allBlocked_submit (b : Backend σ) (job : Job) (h : w.AllBlocked w.deferred) :
    (w.submit b job).2.AllBlocked (w.submit b job).2.deferred := by
  cases hblocked : w.blocks job with
  | true =>
    rw [submit_of_blocks hblocked]
    exact h.concat hblocked
  | false =>
    cases hends : releases job.work with
    | true =>
      rw [submit_of_releases hblocked hends]
      exact allBlocked_replay _ (allBlocked_nil _)
    | false =>
      rw [submit_of_not_releases hblocked hends, deferred_run hblocked]
      exact h.run hblocked hends

theorem perm_submit (b : Backend σ) (w : Worker σ) (job : Job) :
    ((w.submit b job).1.map Run.job ++ (w.submit b job).2.deferred).Perm (w.deferred ++ [job]) := by
  cases hblocked : w.blocks job with
  | true =>
    rw [submit_of_blocks hblocked]
    exact Perm.refl _
  | false =>
    cases hends : releases job.work with
    | true =>
      rw [submit_of_releases hblocked hends]
      exact ((perm_replay b _ [] w.deferred).cons job).trans (perm_append_singleton _ _).symm
    | false =>
      rw [submit_of_not_releases hblocked hends, deferred_run hblocked]
      exact (perm_append_singleton _ _).symm

/-- Submit jobs one after the other. All that were run are returned, in order. -/
def submitAll (b : Backend σ) (w : Worker σ) : List Job → List Run × Worker σ
  | [] => ([], w)
  | job :: rest =>
    let (runs, after) := w.submit b job
    let (more, last) := after.submitAll b rest
    (runs ++ more, last)

theorem allBlocked_submitAll (b : Backend σ) (jobs : List Job) (h : w.AllBlocked w.deferred) :
    (w.submitAll b jobs).2.AllBlocked (w.submitAll b jobs).2.deferred := by
  induction jobs generalizing w with
  | nil => exact h
  | cons job rest ih => exact ih (allBlocked_submit b job h)

theorem perm_submitAll (b : Backend σ) (w : Worker σ) (jobs : List Job) :
    ((w.submitAll b jobs).1.map Run.job ++ (w.submitAll b jobs).2.deferred).Perm
      (w.deferred ++ jobs) := by
  induction jobs generalizing w with
  | nil => simp [submitAll]
  | cons job rest ih =>
    have hrest := ih (w.submit b job).2
    have hfirst := perm_submit b w job
    simp only [submitAll, map_append, append_assoc]
    refine (hrest.append_left _).trans ?_
    rw [← append_assoc]
    refine (hfirst.append_right rest).trans ?_
    rw [append_assoc, singleton_append]

/-- No job is lost, run twice or left behind. Whatever the store does, and
    however often: each job that was submitted has been run and answered, or it
    waits, and not both; none that waits belongs to the open transaction, and
    none waits where no transaction is open. Replaying a queue always ends. -/
theorem submitAll_accounts (b : Backend σ) (store : σ) (jobs : List Job) :
    let (runs, w) := (ofStore store).submitAll b jobs
    (runs.map Run.job ++ w.deferred).Perm jobs ∧
      (∀ t, w.current = some t → ∀ job ∈ w.deferred, job.transaction ≠ some t.id) ∧
      (w.current = none → w.deferred = []) ∧
      ∀ (v : Worker σ) (queue : List Job), ∃ n last, 2 * n ≤ queue.length * (queue.length + 1) ∧
        Round.after? b n ⟨v, [], queue⟩ = some last ∧ last.next? b = none ∧
        (v.replay b [] queue).2 = { last.worker with deferred := last.aside } := by
  have hblocked := allBlocked_submitAll b jobs (w := ofStore store) (allBlocked_nil _)
  refine ⟨perm_submitAll b (ofStore store) jobs, ?_, ?_, replay_ends b⟩
  · intro t hcurrent job hjob
    rcases blocks_eq_true_iff.mp (hblocked job hjob) with ⟨id, hid, hother⟩
    rw [currentId, hcurrent] at hid
    cases hid
    exact hother
  · intro hnone
    exact hblocked.eq_nil (by rw [currentId, hnone]; rfl)

end Snowbank.Worker
