import Snowbank.Proofs.Store.Trace
import Snowbank.Proofs.Worker.Replay

/-!
# Transactions That Have Failed

The first error in a transaction stays with it. What the jobs of a worker do is
seen turn by turn. Between two turns jobs may be put aside, and nothing else
changes.

In a transaction that has failed only its own jobs get a turn. As it is opened
only once, none of these opens it again, and so none of them changes anything
before the one that ends it. That one can only undo what was done.

## Main definitions

* `Turn`: A job that was run, with the worker before and after it.
* `Passes`: The turns that lead from one worker to another.
* `Recorded`: What is known of the open transaction from the turns.

## Theorems

* `first_error_sticks`: After an error all requests fail, up to the end.
-/

namespace Snowbank

open List Option

/-- The work sends statements of its own. -/
def Work.isRequest : Work → Bool
  | .query _ | .execute _ => true
  | _ => false

def Job.opens (id : TransactionId) (job : Job) : Bool := match job.work with
  | .start => job.transaction == some id
  | _ => false

/-- A job that was run, with the worker before and after it. -/
structure Turn (σ : Type) where
  before : Worker σ
  run : Run
  after : Worker σ

/-- What a store that is watched was sent in a turn. -/
def Turn.sent {σ : Type} (t : Turn (σ × List Sent)) : List Sent :=
  t.after.store.2.drop t.before.store.2.length

/-- A request in the open transaction that is answered by an error. -/
structure Turn.Fails {σ : Type} (t : Turn σ) (id : TransactionId) (e : ExecutionError) : Prop where
  request : t.run.job.work.isRequest
  mine : t.run.job.transaction = some id
  during : t.run.during = some id
  result : t.run.result = .error e

namespace Worker

variable {σ : Type} {b : Backend σ} {w v last : Worker σ} {job : Job} {id : TransactionId}
  {turns more : List (Turn σ)}

def turn (b : Backend σ) (w : Worker σ) (job : Job) : Turn σ :=
  ⟨w, (w.run b job).1, (w.run b job).2⟩

/-- The turns that lead from one worker to another. Between two of them only
    the jobs that wait change. -/
inductive Passes (b : Backend σ) : Worker σ → List (Turn σ) → Worker σ → Prop
  | done (w : Worker σ) : Passes b w [] w
  | waits {w last : Worker σ} {turns : List (Turn σ)} (deferred : List Job)
      (rest : Passes b { w with deferred } turns last) : Passes b w turns last
  | runs {w last : Worker σ} {job : Job} {turns : List (Turn σ)} (free : w.blocks job = false)
      (rest : Passes b (w.run b job).2 turns last) : Passes b w (w.turn b job :: turns) last

theorem Passes.append (h : Passes b w turns v) (hmore : Passes b v more last) :
    Passes b w (turns ++ more) last := by
  induction h with
  | done => exact hmore
  | waits deferred _ ih => exact .waits deferred (ih hmore)
  | runs free _ ih => exact .runs free (ih hmore)

theorem Passes.split (h : Passes b w (turns ++ more) last) :
    ∃ v, Passes b w turns v ∧ Passes b v more last := by
  generalize hall : turns ++ more = all at h
  induction h generalizing turns with
  | done w =>
    obtain ⟨rfl, rfl⟩ := append_eq_nil_iff.1 hall
    exact ⟨w, .done w, .done w⟩
  | waits deferred _ ih =>
    obtain ⟨v, hv, hmore⟩ := ih hall
    exact ⟨v, .waits deferred hv, hmore⟩
  | @runs w last job rest free hrest ih =>
    cases turns with
    | nil =>
      rw [nil_append] at hall
      exact ⟨w, .done w, hall ▸ .runs free hrest⟩
    | cons t turns =>
      obtain ⟨rfl, htail⟩ := List.cons.inj hall
      obtain ⟨v, hv, hmore⟩ := ih htail
      exact ⟨v, .runs free hv, hmore⟩

theorem Passes.cons {t : Turn σ} (h : Passes b w (t :: turns) last) :
    ∃ (v : Worker σ) (job : Job), v.current = w.current ∧ v.blocks job = false ∧ t = v.turn b job ∧
      Passes b t.after turns last := by
  generalize hall : t :: turns = all at h
  induction h with
  | done => cases hall
  | waits deferred _ ih => exact ih hall
  | @runs w last job rest free hrest ih =>
    obtain ⟨rfl, rfl⟩ := List.cons.inj hall
    exact ⟨w, job, rfl, free, rfl, hrest⟩

theorem passes_replay (b : Backend σ) (w : Worker σ) (aside pending : List Job) :
    ∃ turns, Passes b w turns (w.replay b aside pending).2 ∧
      turns.map Turn.run = (w.replay b aside pending).1 := by
  refine replay_induction (b := b)
    (Q := fun w _ _ runs last => ∃ turns, Passes b w turns last ∧ turns.map Turn.run = runs)
    ?_ ?_ ?_ ?_ w aside pending
  · exact fun w aside => ⟨[], .waits aside (.done _), rfl⟩
  · exact fun _ ih => ih
  all_goals
    rintro w aside job rest runs last hfree - ⟨turns, hturns, rfl⟩
    exact ⟨w.turn b job :: turns, .runs hfree hturns, rfl⟩

theorem passes_submit (b : Backend σ) (w : Worker σ) (job : Job) :
    ∃ turns, Passes b w turns (w.submit b job).2 ∧ turns.map Turn.run = (w.submit b job).1 := by
  cases hblocked : w.blocks job with
  | true =>
    rw [submit_of_blocks hblocked]
    exact ⟨[], .waits _ (.done _), rfl⟩
  | false =>
    cases hends : releases job.work with
    | true =>
      obtain ⟨turns, hturns, hruns⟩ := passes_replay b (w.run b job).2 [] w.deferred
      rw [submit_of_releases hblocked hends, ← hruns]
      exact ⟨w.turn b job :: turns, .runs hblocked hturns, rfl⟩
    | false =>
      rw [submit_of_not_releases hblocked hends]
      exact ⟨[w.turn b job], .runs hblocked (.done _), rfl⟩

theorem passes_submitAll (b : Backend σ) (w : Worker σ) (jobs : List Job) :
    ∃ turns, Passes b w turns (w.submitAll b jobs).2 ∧
      turns.map Turn.run = (w.submitAll b jobs).1 := by
  induction jobs generalizing w with
  | nil => exact ⟨[], .done w, rfl⟩
  | cons job rest ih =>
    obtain ⟨first, hfirst, hruns⟩ := passes_submit b w job
    obtain ⟨turns, hturns, hmore⟩ := ih (w.submit b job).2
    exact ⟨first ++ turns, hfirst.append hturns, by rw [map_append, hruns, hmore]; rfl⟩

section

variable {seen : List (Turn σ)}

/-- What a request does to an open transaction in which nothing has failed. -/
theorem run_request (hwork : job.work.isRequest) (hmine : job.transaction = some id)
    (hopen : w.current = some ⟨id, none⟩) :
    (∃ rows, (w.run b job).1.result = .ok rows ∧ (w.run b job).2.current = w.current) ∨
      ∃ e, (w.run b job).1.result = .error e ∧
        (w.run b job).2.current = some ⟨id, some e.message⟩ := by
  obtain ⟨ticket, work, transaction⟩ := job
  obtain rfl : transaction = some id := hmine
  cases work with
  | start | commit | rollback => cases hwork
  | query s | execute s =>
    simp only [run, guarded, hopen, bne_self_eq_false, Bool.false_eq_true, if_false]
    split
    · exact .inl ⟨_, rfl, rfl⟩
    · exact .inr ⟨_, rfl, rfl⟩

/-- In a transaction that has failed a request does nothing. -/
theorem run_request_of_failed {cause : String} (hwork : job.work.isRequest)
    (hmine : job.transaction = some id) (hfailed : w.current = some ⟨id, some cause⟩) :
    w.run b job = (⟨job, some id, .error (.transaction cause)⟩, w) := by
  obtain ⟨ticket, work, transaction⟩ := job
  obtain rfl : transaction = some id := hmine
  cases work with
  | start | commit | rollback => cases hwork
  | query s | execute s => simp [run, guarded, currentId, hfailed]

/-- What is known of the open transaction from the turns so far. -/
structure Recorded (seen : List (Turn σ)) (w : Worker σ) : Prop where
  opened : ∀ id, w.currentId = some id → ∃ t ∈ seen, t.run.job.opens id
  failed : ∀ id cause, w.current = some ⟨id, some cause⟩ → ∃ t ∈ seen, ∃ e, t.Fails id e

theorem Recorded.congr (h : Recorded seen w) (hsame : v.current = w.current) : Recorded seen v := by
  refine ⟨fun id hid => h.opened id ?_, fun id cause hcause => h.failed id cause ?_⟩
  · rwa [currentId, hsame] at hid
  · rwa [hsame] at hcause

theorem Recorded.concat (h : Recorded seen w) (t : Turn σ) : Recorded (seen ++ [t]) w := by
  refine ⟨fun id hid => ?_, fun id cause hcause => ?_⟩
  · obtain ⟨s, hs, hopens⟩ := h.opened id hid
    exact ⟨s, mem_append_left _ hs, hopens⟩
  · obtain ⟨s, hs, hfails⟩ := h.failed id cause hcause
    exact ⟨s, mem_append_left _ hs, hfails⟩

theorem recorded_of_none (seen : List (Turn σ)) (h : w.current = none) : Recorded seen w := by
  refine ⟨fun id hid => ?_, fun id cause hcause => ?_⟩
  · rw [currentId, h] at hid
    cases hid
  · rw [h] at hcause
    cases hcause

theorem Recorded.run (h : Recorded seen w) (hfree : w.blocks job = false) :
    Recorded (seen ++ [w.turn b job]) (w.run b job).2 := by
  have hlast : w.turn b job ∈ seen ++ [w.turn b job] := mem_append_right _ mem_cons_self
  cases hwork : job.work with
  -- ending a transaction leaves none open
  | commit | rollback =>
    exact recorded_of_none _ (current_run_of_releases hfree (by rw [hwork]; rfl))
  | start =>
    obtain ⟨ticket, work, transaction⟩ := job
    obtain rfl : work = .start := hwork
    cases transaction with
    | none => exact (h.concat _).congr rfl
    | some id =>
      simp only [Worker.run, openTransaction] at hlast ⊢
      split
      · refine ⟨fun other hother => ⟨_, hlast, ?_⟩, fun other cause hcause => by cases hcause⟩
        obtain rfl := some.inj hother
        exact beq_self_eq_true _
      · exact (h.concat _).congr rfl
  -- a request may fail, and this turn is then the one that is asked for
  | query s | execute s =>
    have hrequest : job.work.isRequest := by rw [hwork]; rfl
    cases hcurrent : w.current with
    | none =>
      refine recorded_of_none _ ?_
      cases htransaction : job.transaction with
      | none | some id => simp [Worker.run, guarded, hwork, htransaction, hcurrent]
    | some open_ =>
      obtain ⟨id, failed⟩ := open_
      have hmine : job.transaction = some id := by simpa [blocks, hcurrent] using hfree
      cases failed with
      | some cause =>
        rw [run_request_of_failed hrequest hmine hcurrent]
        exact h.concat _
      | none =>
        rcases run_request (b := b) hrequest hmine hcurrent with
          ⟨rows, -, hsame⟩ | ⟨e, hresult, hfailed⟩
        · exact (h.concat _).congr hsame
        · refine ⟨fun other hother => ?_, fun other cause hcause => ⟨_, hlast, e, ?_⟩⟩
          · obtain ⟨t, ht, hopens⟩ := h.opened id (by rw [currentId, hcurrent]; rfl)
            rw [currentId, hfailed] at hother
            obtain rfl := some.inj hother
            exact ⟨t, mem_append_left _ ht, hopens⟩
          · rw [hfailed] at hcause
            obtain ⟨rfl, -⟩ := OpenTransaction.mk.inj (some.inj hcause)
            exact ⟨hrequest, hmine, by rw [turn, during_run, currentId, hcurrent]; rfl, hresult⟩

/-- A transaction is open because it was opened, and failed because a request in it did. -/
theorem recorded_of_passes (h : Passes b w turns last)
    (hseen : Recorded seen w) : Recorded (seen ++ turns) last := by
  induction h generalizing seen with
  | done => rwa [append_nil]
  | waits deferred _ ih => exact ih (hseen.congr rfl)
  | runs free _ ih =>
    have hrest := ih (hseen.run free)
    rwa [append_assoc] at hrest

/-- A transaction that has failed stays so until it is ended. -/
theorem current_of_passes {cause : String} (h : Passes b w turns last)
    (hfailed : w.current = some ⟨id, some cause⟩) (hopen : ∀ t ∈ turns, t.run.job.opens id = false ∧
      (t.run.job.transaction = some id → releases t.run.job.work = false)) :
    last.current = some ⟨id, some cause⟩ := by
  -- only its own jobs get a turn, and none of these opens it
  induction h with
  | done => exact hfailed
  | waits deferred _ ih => exact ih hfailed hopen
  | @runs w last job rest free hrest ih =>
    rw [forall_mem_cons] at hopen
    have hmine : job.transaction = some id := by simpa [blocks, hfailed] using free
    have hrequest : job.work.isRequest := by
      have hstart : job.opens id = false := hopen.1.1
      have hends : releases job.work = false := hopen.1.2 hmine
      unfold Job.opens at hstart
      cases hwork : job.work with
      | start => simp [hwork, hmine] at hstart
      | commit | rollback => rw [hwork] at hends; cases hends
      | query | execute => rfl
    rw [run_request_of_failed hrequest hmine hfailed] at ih
    exact ih hfailed hopen.2

end

section

variable {x : Worker (σ × List Sent)} {cause : String}

theorem run_commit_of_failed (hwork : job.work = .commit) (hmine : job.transaction = some id)
    (hfailed : x.current = some ⟨id, some cause⟩) :
    (∀ rows, (x.run b.traced job).1.result ≠ .ok rows) ∧
      ∃ taken, (x.turn b.traced job).sent = [⟨"ROLLBACK", [], taken⟩] := by
  obtain ⟨result, store, hsent⟩ := b.traced_command x.store.1 x.store.2 "ROLLBACK"
  simp only [Turn.sent, turn, run, hwork, endTransaction, hfailed, hmine, bne_self_eq_false,
    Bool.false_eq_true, if_false, if_true, undo, hsent]
  cases result with
  | ok _ | error e =>
    refine ⟨fun rows h => ?_, _, drop_left⟩
    cases h

/-- The first error in a transaction sticks. Each transaction is opened by one job at most. From the
    first request on that fails in it, every later one up to its end fails with the message of that
    error, and nothing is sent for it; a commit is answered by an error and only undoes what was
    done; and no transaction is open after its end. -/
theorem first_error_sticks (b : Backend σ) (store : σ) (jobs : List Job)
    (hbegins : ∀ id, jobs.countP (Job.opens id) ≤ 1) :
    ∃ turns, turns.map Turn.run = ((ofStore (store, [])).submitAll b.traced jobs).1 ∧
      Passes b.traced (ofStore (store, [])) turns
        ((ofStore (store, [])).submitAll b.traced jobs).2 ∧
      ∀ before first between later after id e,
        turns = before ++ first :: between ++ later :: after →
        first.Fails id e → (∀ t ∈ before, ∀ e, ¬ t.Fails id e) →
        (∀ t ∈ between, t.run.job.transaction = some id → releases t.run.job.work = false) →
        later.run.job.transaction = some id →
        (later.run.job.work.isRequest = true →
          later.run.result = .error (.transaction e.message) ∧ later.sent = []) ∧
        (later.run.job.work = .commit → (∀ rows, later.run.result ≠ .ok rows) ∧
          ∃ taken, later.sent = [⟨"ROLLBACK", [], taken⟩]) ∧
        (releases later.run.job.work = true → later.after.current = none) := by
  obtain ⟨turns, hpasses, hruns⟩ := passes_submitAll b.traced (ofStore (store, [])) jobs
  refine ⟨turns, hruns, hpasses, fun before first between later after id e hturns hfirst hnone
    hbetween hlater => ?_⟩
  -- every turn is that of a job, so the transaction is opened in one of them at most
  have hcount : (turns.map fun t => t.run.job).countP (Job.opens id) ≤ 1 := by
    have hperm := perm_submitAll b.traced (ofStore (store, [])) jobs
    rw [← hruns, List.map_map] at hperm
    have hle := (hperm.countP_eq (Job.opens id)).le.trans (hbegins id)
    rw [List.countP_append] at hle
    exact (Nat.le_add_right _ _).trans hle
  subst hturns
  rw [List.append_assoc] at hpasses
  obtain ⟨v, hbefore, hrest⟩ := hpasses.split
  have hrecorded := recorded_of_passes hbefore (recorded_of_none [] rfl)
  rw [List.nil_append] at hrecorded
  obtain ⟨v', job, hsame, hfree, rfl, hrest⟩ := hrest.cons
  have hduring : v.currentId = some id := by
    have := hfirst.during
    rwa [turn, during_run, currentId, hsame] at this
  have hopen : v'.current = some ⟨id, none⟩ := by
    rw [hsame]
    cases hcurrent : v.current with
    | none => rw [currentId, hcurrent] at hduring; cases hduring
    | some t =>
      obtain ⟨held, failed⟩ := t
      rw [currentId, hcurrent] at hduring
      obtain rfl := Option.some.inj hduring
      cases failed with
      | none => rfl
      | some cause =>
        obtain ⟨t, ht, other, hfails⟩ := hrecorded.failed _ _ hcurrent
        exact absurd hfails (hnone t ht other)
  have hfailed : (v'.turn b.traced job).after.current = some ⟨id, some e.message⟩ := by
    rcases run_request (b := b.traced) hfirst.request hfirst.mine hopen with
      ⟨rows, hok, -⟩ | ⟨other, herror, hafter⟩
    · cases hok.symm.trans hfirst.result
    · cases herror.symm.trans hfirst.result
      exact hafter
  obtain ⟨x, hmiddle, hend⟩ := hrest.split
  obtain ⟨y, last, hlast, hlastFree, rfl, -⟩ := hend.cons
  have hstill : x.current = some ⟨id, some e.message⟩ := by
    refine current_of_passes hmiddle hfailed fun t ht => ⟨?_, hbetween t ht⟩
    obtain ⟨s, hs, hopens⟩ := hrecorded.opened id hduring
    have hone : 0 < (before.map fun t => t.run.job).countP (Job.opens id) :=
      List.countP_pos_iff.mpr ⟨_, List.mem_map_of_mem hs, hopens⟩
    by_contra hagain
    have htwo : 0 < (between.map fun t => t.run.job).countP (Job.opens id) :=
      List.countP_pos_iff.mpr ⟨_, List.mem_map_of_mem ht, by simpa using hagain⟩
    simp only [List.map_append, List.map_cons, List.countP_append, List.countP_cons] at hcount
    omega
  rw [← hlast] at hstill
  refine ⟨fun hrequest => ?_, fun hcommit => run_commit_of_failed hcommit hlater hstill,
    current_run_of_releases hlastFree⟩
  have hrequest' : last.work.isRequest = true := hrequest
  have hrun := run_request_of_failed (b := b.traced) hrequest' hlater hstill
  simp [turn, Turn.sent, hrun]

/-- A store in which every query fails. -/
def unreadable : Backend Unit where
  openAt _ store := (.ok (), store)
  batch _ store := (.ok (), store)
  execute _ _ store := (.ok (), store)
  query _ _ store := (.error "no table", store)

/-- A transaction whose first request is a query. -/
def reading : List Job := [⟨0, .start, some 7⟩, ⟨1, .query (.plain "SELECT 1"), some 7⟩,
    ⟨2, .execute [.plain "DELETE FROM t"], some 7⟩, ⟨3, .commit, some 7⟩]

/-- The query that failed, and the commit at the end. -/
theorem first_error_sticks_reading :
    (∀ id, reading.countP (Job.opens id) ≤ 1) ∧
      ∃ (opened first second last : Turn (Unit × List Sent)) (rest : List Run),
        opened.run :: first.run :: second.run :: last.run :: rest =
          ((ofStore ((), [])).submitAll unreadable.traced reading).1 ∧
        first.Fails 7 (.execute "no table" "SELECT 1") ∧
        second.sent = [] ∧ ∃ taken, last.sent = [⟨"ROLLBACK", [], taken⟩] := by
  have hbegins : ∀ id, reading.countP (Job.opens id) ≤ 1 := by
    intro id
    by_cases h : id = 7 <;> simp [reading, Job.opens, Ne.symm, h]
  obtain ⟨turns, hturns, -, hsticks⟩ := first_error_sticks unreadable () reading hbegins
  have hall := hturns
  obtain ⟨opened, turns, rfl, hopened, hturns⟩ := List.map_eq_cons_iff.mp hturns
  obtain ⟨first, turns, rfl, hfirst, hturns⟩ := List.map_eq_cons_iff.mp hturns
  obtain ⟨second, turns, rfl, hsecond, hturns⟩ := List.map_eq_cons_iff.mp hturns
  obtain ⟨last, turns, rfl, hlast, hturns⟩ := List.map_eq_cons_iff.mp hturns
  have hfails : first.Fails 7 (.execute "no table" "SELECT 1") := by
    constructor <;> rw [hfirst] <;> rfl
  have hnone : ∀ t ∈ [opened], ∀ e, ¬ t.Fails 7 e := by
    rintro t ht e ⟨hrequest, -, -, -⟩
    rw [List.mem_singleton.mp ht, hopened] at hrequest
    cases hrequest
  refine ⟨hbegins, opened, first, second, last, turns.map Turn.run, hall, hfails, ?_, ?_⟩
  · refine ((hsticks [opened] first [] second _ 7 _ rfl hfails hnone (by simp) ?_).1 ?_).2
    · rw [hsecond]
    · rw [hsecond]
      rfl
  · refine ((hsticks [opened] first [second] last turns 7 _ rfl hfails hnone ?_ ?_).2.1 ?_).2
    · rintro t ht -
      rw [List.mem_singleton.mp ht, hsecond]
      rfl
    · rw [hlast]
    · rw [hlast]

end

end Worker

end Snowbank
