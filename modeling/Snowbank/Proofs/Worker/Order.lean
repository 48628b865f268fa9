import Snowbank.Proofs.Worker.Replay

/-!
# The Order of Jobs

Jobs are run in the order in which they are submitted, with one exception:
while a transaction is open its own jobs go before those that wait for its
end.

The order of submission is a relation here, about which nothing is asked. What
is shown is that a list of jobs in which each is related to all that follow
stays so in the runs and in the queue, up to jobs that overtake others.

At any time a replay has the jobs put aside before those still to be looked at.
Only the former can be overtaken, and they are all blocked, which is what makes
the job that is run one of the open transaction.

## Main definitions

* `Overtakes`: The run is one of the open transaction, the job is not.
* `InOrder`: Runs and jobs that wait are in order, up to that.

## Theorems

* `submitAll_ordered`: Transactions are isolated, and jobs keep their order.
-/

namespace Snowbank

open List

/-- The run is one of the open transaction, and the job is not. -/
def Run.Overtakes (run : Run) (job : Job) : Prop :=
  ∃ id, run.during = some id ∧ run.job.transaction = some id ∧ job.transaction ≠ some id

/-- The job was run where no transaction was open, or in its own. -/
def Run.Isolated (run : Run) : Prop := run.during = none ∨ run.job.transaction = run.during

namespace Worker

variable {σ : Type} {b : Backend σ} {w : Worker σ} {job : Job}

theorem isolated_run (hfree : w.blocks job = false) : (w.run b job).1.Isolated :=
  blocks_eq_false_iff.1 hfree

theorem overtakes_run {other : Job} (hfree : w.blocks job = false) (hother : w.blocks other) :
    (w.run b job).1.Overtakes other := by
  obtain ⟨id, hid, hne⟩ := blocks_eq_true_iff.1 hother
  refine ⟨id, hid, ?_, hne⟩
  rcases blocks_eq_false_iff.1 hfree with hnone | hmine
  · rw [hnone] at hid
    cases hid
  · exact hmine.trans hid

theorem isolated_replay (b : Backend σ) (w : Worker σ) (aside pending : List Job) :
    ∀ run ∈ (w.replay b aside pending).1, run.Isolated := by
  refine replay_induction (b := b) (Q := fun _ _ _ runs _ => ∀ run ∈ runs, run.Isolated)
    ?_ ?_ ?_ ?_ w aside pending
  · intro w aside run hrun
    cases hrun
  · intro w aside job rest runs last _ ih
    exact ih
  · intro w aside job rest runs last hfree _ ih
    exact forall_mem_cons.2 ⟨isolated_run hfree, ih⟩
  · intro w aside job rest runs last hfree _ ih
    exact forall_mem_cons.2 ⟨isolated_run hfree, ih⟩

theorem isolated_submit (b : Backend σ) (w : Worker σ) (job : Job) :
    ∀ run ∈ (w.submit b job).1, run.Isolated := by
  cases hblocked : w.blocks job with
  | true =>
    rw [submit_of_blocks hblocked]
    exact forall_mem_nil _
  | false =>
    cases hends : releases job.work with
    | true =>
      rw [submit_of_releases hblocked hends]
      exact forall_mem_cons.2 ⟨isolated_run hblocked, isolated_replay b _ _ _⟩
    | false =>
      rw [submit_of_not_releases hblocked hends]
      exact forall_mem_singleton.2 (isolated_run hblocked)

theorem isolated_submitAll (b : Backend σ) (w : Worker σ) (jobs : List Job) :
    ∀ run ∈ (w.submitAll b jobs).1, run.Isolated := by
  induction jobs generalizing w with
  | nil => exact forall_mem_nil _
  | cons job rest ih =>
    intro run hrun
    rcases mem_append.1 hrun with hrun | hrun
    · exact isolated_submit b w job run hrun
    · exact ih _ run hrun

section

variable {before : Job → Job → Prop}

variable {runs : List Run} {waiting left aside rest : List Job}

/-- The runs come in the order of the relation, and before the jobs that wait,
    except where one overtakes; the jobs that wait are in order. -/
structure InOrder (before : Job → Job → Prop) (runs : List Run) (waiting : List Job) : Prop where
  done : runs.Pairwise fun first later => before first.job later.job ∨ first.Overtakes later.job
  left : waiting.Pairwise before
  between : ∀ run ∈ runs, ∀ job ∈ waiting, before run.job job ∨ run.Overtakes job

/-- One more run in front: it is before all jobs that are still to be run, or overtakes them. The
    jobs to be run are those of the runs that follow and those that wait in the end. -/
theorem InOrder.cons {run : Run}
    (h : InOrder before runs waiting) (hleft : (runs.map Run.job ++ waiting).Perm left)
    (hfirst : ∀ job ∈ left, before run.job job ∨ run.Overtakes job) :
    InOrder before (run :: runs) waiting where
  done := Pairwise.cons
    (fun _ hlater =>
      hfirst _ (hleft.subset (mem_append_left _ (mem_map_of_mem hlater)))) h.done
  left := h.left
  between := forall_mem_cons.2
    ⟨fun job hjob => hfirst job (hleft.subset (mem_append_right _ hjob)), h.between⟩

/-- Running the next job of a list in order, behind jobs that are blocked,
    overtakes these and is before all that follow. -/
theorem before_or_overtakes (haside : w.AllBlocked aside)
    (hfree : w.blocks job = false) (horder : (aside ++ job :: rest).Pairwise before) :
    ∀ other ∈ aside ++ rest, before job other ∨ (w.run b job).1.Overtakes other := by
  intro other hother
  rcases mem_append.1 hother with hother | hother
  · exact .inr (overtakes_run hfree (haside other hother))
  · exact .inl (rel_of_pairwise_cons (pairwise_append.1 horder).2.1 hother)

theorem pairwise_erase_middle
    (h : (aside ++ job :: rest).Pairwise before) : (aside ++ rest).Pairwise before :=
  h.sublist ((sublist_cons_self job rest).append_left aside)

theorem inOrder_replay {pending : List Job} (haside : w.AllBlocked aside)
    (horder : (aside ++ pending).Pairwise before) :
    InOrder before (w.replay b aside pending).1 (w.replay b aside pending).2.deferred := by
  -- what is left to be run has to be known as well, to place each run before it
  suffices hboth : ((w.replay b aside pending).1.map Run.job ++
        (w.replay b aside pending).2.deferred).Perm (aside ++ pending) ∧
      (w.AllBlocked aside → (aside ++ pending).Pairwise before →
        InOrder before (w.replay b aside pending).1 (w.replay b aside pending).2.deferred) from
    hboth.2 haside horder
  refine replay_induction (b := b) (Q := fun w aside pending runs last =>
      (runs.map Run.job ++ last.deferred).Perm (aside ++ pending) ∧
        (w.AllBlocked aside → (aside ++ pending).Pairwise before →
          InOrder before runs last.deferred)) ?_ ?_ ?_ ?_ w aside pending
  · intro w aside
    refine ⟨by simp, fun _ horder => ⟨Pairwise.nil, by simpa using horder, ?_⟩⟩
    exact forall_mem_nil _
  · intro w aside job rest runs last hblocked ih
    rw [append_assoc] at ih
    exact ⟨ih.1, fun haside horder => ih.2 (haside.concat hblocked) horder⟩
  · intro w aside job rest runs last hfree hends ih
    rw [nil_append] at ih
    refine ⟨(ih.1.cons job).trans perm_middle.symm, fun haside horder => ?_⟩
    exact (ih.2 (allBlocked_nil _) (pairwise_erase_middle horder)).cons ih.1
      (before_or_overtakes haside hfree horder)
  · intro w aside job rest runs last hfree hends ih
    refine ⟨(ih.1.cons job).trans perm_middle.symm, fun haside horder => ?_⟩
    exact (ih.2 (haside.run hfree hends) (pairwise_erase_middle horder)).cons ih.1
      (before_or_overtakes haside hfree horder)

theorem inOrder_submit (b : Backend σ) (hblocked : w.AllBlocked w.deferred)
    (horder : (w.deferred ++ [job]).Pairwise before) :
    InOrder before (w.submit b job).1 (w.submit b job).2.deferred := by
  cases hwaits : w.blocks job with
  | true =>
    rw [submit_of_blocks hwaits]
    exact ⟨Pairwise.nil, horder, forall_mem_nil _⟩
  | false =>
    have hdeferred : w.deferred.Pairwise before := (pairwise_append.1 horder).1
    have hfirst := before_or_overtakes (b := b) hblocked hwaits horder
    rw [append_nil] at hfirst
    cases hends : releases job.work with
    | true =>
      rw [submit_of_releases hwaits hends]
      exact (inOrder_replay (allBlocked_nil _) hdeferred).cons (perm_replay b _ _ _) hfirst
    | false =>
      rw [submit_of_not_releases hwaits hends, deferred_run hwaits]
      have hnone : InOrder before [] w.deferred := ⟨Pairwise.nil, hdeferred, forall_mem_nil _⟩
      exact hnone.cons (Perm.refl _) hfirst

/-- Two stretches of runs in order are in order together, if the first is in
    order with all that it leaves to the second. -/
theorem InOrder.append {more : List Run}
    (h : InOrder before more waiting) (hleft : (more.map Run.job ++ waiting).Perm left)
    (hruns : runs.Pairwise fun first later => before first.job later.job ∨
    first.Overtakes later.job)
    (hbetween : ∀ run ∈ runs, ∀ job ∈ left, before run.job job ∨ run.Overtakes job) :
    InOrder before (runs ++ more) waiting where
  done := pairwise_append.2 ⟨hruns, h.done, fun first hfirst later hlater =>
    hbetween first hfirst _ (hleft.subset (mem_append_left _ (mem_map_of_mem hlater)))⟩
  left := h.left
  between := by
    intro run hrun job hjob
    rcases mem_append.1 hrun with hrun | hrun
    · exact hbetween run hrun job (hleft.subset (mem_append_right _ hjob))
    · exact h.between run hrun job hjob

theorem inOrder_submitAll (b : Backend σ) {jobs : List Job} (hblocked : w.AllBlocked w.deferred)
    (horder : (w.deferred ++ jobs).Pairwise before) :
    InOrder before (w.submitAll b jobs).1 (w.submitAll b jobs).2.deferred := by
  induction jobs generalizing w with
  | nil =>
    rw [append_nil] at horder
    exact ⟨Pairwise.nil, horder, forall_mem_nil _⟩
  | cons job rest ih =>
    have hsplit : w.deferred ++ job :: rest = (w.deferred ++ [job]) ++ rest := by simp
    rw [hsplit] at horder
    obtain ⟨hsubmitted, hrest, hacross⟩ := pairwise_append.1 horder
    have hfirst := inOrder_submit b hblocked hsubmitted
    have hperm := perm_submit b w job
    have hnext : ((w.submit b job).2.deferred ++ rest).Pairwise before :=
      pairwise_append.2 ⟨hfirst.left, hrest, fun waits hwaits later hlater =>
        hacross waits (hperm.subset (mem_append_right _ hwaits)) later hlater⟩
    refine (ih (allBlocked_submit b job hblocked) hnext).append (perm_submitAll b _ rest)
      hfirst.done fun run hrun other hother => ?_
    rcases mem_append.1 hother with hother | hother
    · exact hfirst.between run hrun other hother
    · -- a job that is submitted only later
      exact .inl (hacross _ (hperm.subset (mem_append_left _ (mem_map_of_mem hrun))) other hother)

end

end Worker

/-- Jobs whose tickets count up from a number. -/
def Job.numbered (first : Nat) : List (Work × Option TransactionId) → List Job
  | [] => []
  | (work, transaction) :: rest => ⟨first, work, transaction⟩ :: numbered (first + 1) rest

theorem Job.le_ticket_of_mem_numbered {first : Nat} {asked : List (Work × Option TransactionId)}
    {job : Job} (h : job ∈ numbered first asked) : first ≤ job.ticket := by
  induction asked generalizing first with
  | nil => cases h
  | cons one rest ih =>
    rcases mem_cons.1 h with rfl | h
    · exact Nat.le_refl first
    · have := ih h
      omega

theorem Job.pairwise_numbered (first : Nat) (asked : List (Work × Option TransactionId)) :
    (numbered first asked).Pairwise fun a b => a.ticket < b.ticket := by
  induction asked generalizing first with
  | nil => exact Pairwise.nil
  | cons one rest ih => exact Pairwise.cons (fun _ h => le_ticket_of_mem_numbered h) (ih _)

/-- Isolation and order. Every job is run where no transaction is open or in its own. If a job is
    run before one that was submitted earlier, or while that one waits, then it is one of the open
    transaction and the earlier one is not. So the jobs with one and the same transaction are run in
    the order in which they were submitted, and also those with none. -/
theorem Worker.submitAll_ordered {σ : Type} (b : Backend σ) (store : σ)
    (asked : List (Work × Option TransactionId)) :
    let (runs, w) := (ofStore store).submitAll b (Job.numbered 0 asked)
    (∀ run ∈ runs, run.during = none ∨ run.job.transaction = run.during) ∧
      runs.Pairwise (fun first later =>
        later.job.ticket < first.job.ticket → first.Overtakes later.job) ∧
      (∀ run ∈ runs, ∀ job ∈ w.deferred, job.ticket < run.job.ticket → run.Overtakes job) ∧
      ∀ transaction : Option TransactionId,
        (runs.filter fun run => run.job.transaction = transaction).Pairwise
          fun first later => first.job.ticket < later.job.ticket := by
  have horder := inOrder_submitAll (w := ofStore store) b (allBlocked_nil _)
    (Job.pairwise_numbered 0 asked)
  refine ⟨isolated_submitAll b _ _, ?_, ?_, fun transaction => ?_⟩
  · exact horder.done.imp fun h hlater => h.resolve_left (Nat.not_lt.mpr (Nat.le_of_lt hlater))
  · intro run hrun job hjob hlater
    exact (horder.between run hrun job hjob).resolve_left (Nat.not_lt.mpr (Nat.le_of_lt hlater))
  · refine List.pairwise_filter.mpr (horder.done.imp fun {first later} h hfirst hlater => ?_)
    refine h.resolve_right ?_
    -- a job overtakes only jobs of other transactions
    rintro ⟨id, _, hid, hne⟩
    rw [decide_eq_true_eq] at hfirst hlater
    exact hne (hlater.trans (hfirst.symm.trans hid))

end Snowbank
