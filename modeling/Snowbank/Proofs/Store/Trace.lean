import Snowbank.Service.Session

/-!
# What a Store Was Sent

A watched backend does what the other does and writes down each statement with
whether it was taken. Since backends differ in nothing but what they do with
statements, a fact about the statements that a watched backend was sent is a
fact about every store, and about every choice of statements that fail.

The end of a transaction can be read from what was sent. It was kept exactly
when a commit was taken, because no statement that an insertion sends is one.

## Main definitions

* `traced`: The backend, writing down what it is sent.
* `transact`: Statements in a transaction of their own.

## Theorems

* `traced_transact`: What a transaction sends, and when it is kept.
* `sql_ne_commit`: No statement of an insertion is a commit.
-/

namespace Snowbank

open List Statement SchemaChange

/-- A statement that a store was sent, and whether it was taken. -/
structure Sent where
  sql : String
  params : List Param
  taken : Bool

def Statement.taken (s : Statement) : Sent := ⟨s.sql, s.params, true⟩

/-- A command that was taken. -/
def Sent.command (text : String) : Sent := ⟨text, [], true⟩

namespace Backend

variable {σ : Type}

/-- Write down a statement after it has been sent. -/
def note {α : Type} (sql : String) (params : List Param) (log : List Sent) :
    Except String α × σ → Except String α × (σ × List Sent)
  | (.ok a, store) => (.ok a, store, log ++ [⟨sql, params, true⟩])
  | (.error e, store) => (.error e, store, log ++ [⟨sql, params, false⟩])

/-- The backend, writing down what it is sent. -/
def traced (b : Backend σ) : Backend (σ × List Sent) where
  openAt path s := ((b.openAt path s.1).1, (b.openAt path s.1).2, s.2)
  batch text s := note text [] s.2 (b.batch text s.1)
  execute sql params s := note sql params s.2 (b.execute sql params s.1)
  query sql params s := note sql params s.2 (b.query sql params s.1)

/-- Statements in a transaction of their own. What was done is undone if a
    statement fails, or if it cannot be kept. -/
def transact (b : Backend σ) (statements : List Statement) (store : σ) :
    Except ExecutionError Unit × σ :=
  match b.command "BEGIN TRANSACTION" store with
  | (.error e, store) => (.error e, store)
  | (.ok _, store) =>
    match b.sendAll statements store with
    | (.error e, store) => (.error e, (b.command "ROLLBACK" store).2)
    | (.ok _, store) =>
      match b.command "COMMIT" store with
      | (.error e, store) => (.error e, (b.command "ROLLBACK" store).2)
      | (.ok _, store) => (.ok (), store)

section

variable (b : Backend σ) (store : σ) (log : List Sent)

theorem traced_command (text : String) : ∃ result after,
    b.traced.command text (store, log) = (result, after, log ++ [⟨text, [], result.toBool⟩]) := by
  unfold command traced note
  dsimp only
  cases b.batch text store with
  | mk result after =>
    cases result with
    | ok _ | error e => exact ⟨_, after, rfl⟩

theorem traced_send (s : Statement) : ∃ result after,
    b.traced.send s (store, log) = (result, after, log ++ [⟨s.sql, s.params, result.toBool⟩]) := by
  unfold send
  cases hparams : s.params with
  | nil => exact traced_command b store log s.sql
  | cons p rest =>
    unfold traced note
    dsimp only
    cases b.execute s.sql (p :: rest) store with
    | mk result after =>
      cases result with
      | ok _ | error e => exact ⟨_, after, rfl⟩

/-- Either all statements are sent and taken, or one of them is refused and
    those before it were taken. -/
theorem traced_sendAll (statements : List Statement) :
    (∃ after, b.traced.sendAll statements (store, log) =
        (.ok (), after, log ++ statements.map taken)) ∨
      ∃ e after before refused rest, statements = before ++ refused :: rest ∧
        b.traced.sendAll statements (store, log) = (.error e, after,
          log ++ (before.map taken ++ [⟨refused.sql, refused.params, false⟩])) := by
  induction statements generalizing store log with
  | nil => exact .inl ⟨store, by simp [sendAll]⟩
  | cons s statements ih =>
    obtain ⟨result, next, hsent⟩ := traced_send b store log s
    rw [sendAll, hsent]
    cases result with
    | error e => exact .inr ⟨e, next, [], s, statements, rfl, rfl⟩
    | ok _ =>
      rcases ih next (log ++ [s.taken]) with
        ⟨after, hrest⟩ | ⟨e, after, before, refused, rest, hsplit, hrest⟩
      · exact .inl ⟨after, by simpa [Except.toBool, taken] using hrest⟩
      · refine .inr ⟨e, after, s :: before, refused, rest, by rw [hsplit]; rfl, ?_⟩
        simpa [Except.toBool, taken] using hrest

omit b store log in
theorem taken_of_initial {before statements : List Statement} (h : before <+: statements)
    (refused : Sent) (hrefused : refused.taken = false) :
    ∀ s ∈ Sent.command "BEGIN TRANSACTION" :: before.map taken ++ [refused],
      s.taken → s.sql = "BEGIN TRANSACTION" ∨ s ∈ statements.map taken := by
  intro s hs htaken
  simp only [cons_append, mem_cons, mem_append, not_mem_nil, or_false] at hs
  rcases hs with rfl | hs | rfl
  · exact .inl rfl
  · exact .inr (map_subset _ h.subset hs)
  · rw [hrefused] at htaken
    cases htaken

/-- What has been sent of a transaction that is undone: its own statements,
    and the command that undoes it. -/
theorem traced_rollback {statements : List Statement} {before : List Sent}
    (hbefore : ∀ s ∈ before, s.taken →
      s.sql = "BEGIN TRANSACTION" ∨ s ∈ statements.map taken) :
    ∃ after sent, (b.traced.command "ROLLBACK" (store, log ++ before)).2 = (after, log ++ sent) ∧
      (∀ s ∈ sent, s.taken →
        s.sql = "BEGIN TRANSACTION" ∨ s.sql = "ROLLBACK" ∨ s ∈ statements.map taken) ∧
      ∃ before taken, sent = before ++ [⟨"ROLLBACK", [], taken⟩] := by
  obtain ⟨result, after, hback⟩ := traced_command b store (log ++ before) "ROLLBACK"
  refine ⟨after, before ++ [⟨"ROLLBACK", [], result.toBool⟩], ?_, ?_, before, result.toBool, rfl⟩
  · rw [hback, append_assoc]
  · intro s hs htaken
    rcases mem_append.1 hs with hs | hs
    · exact (hbefore s hs htaken).imp_right .inr
    · exact .inr (.inl (by rw [mem_singleton.1 hs]))

/-- How a transaction can end. One that is kept has sent everything between its opening and the
    commit, and all of it was taken. One that is not kept could not be opened, or its last command
    undoes it; what was taken of it besides are its own statements. -/
theorem traced_transact (statements : List Statement) :
    (∃ after, b.traced.transact statements (store, log) = (.ok (), after, log ++
        (Sent.command "BEGIN TRANSACTION" :: statements.map taken ++
          [Sent.command "COMMIT"]))) ∨
      ∃ e after sent, b.traced.transact statements (store, log) = (.error e, after, log ++ sent) ∧
        (∀ s ∈ sent, s.taken →
          s.sql = "BEGIN TRANSACTION" ∨ s.sql = "ROLLBACK" ∨ s ∈ statements.map taken) ∧
        (sent = [⟨"BEGIN TRANSACTION", [], false⟩] ∨
          ∃ before taken, sent = before ++ [⟨"ROLLBACK", [], taken⟩]) := by
  unfold transact
  obtain ⟨result, opened, hopen⟩ := traced_command b store log "BEGIN TRANSACTION"
  rw [hopen]
  cases result with
  | error e =>
    refine .inr ⟨e, opened, _, rfl, ?_, .inl rfl⟩
    intro s hs htaken
    rw [mem_singleton.1 hs] at htaken
    cases htaken
  | ok _ =>
    simp only [Except.toBool]
    rcases traced_sendAll b opened (log ++ [⟨"BEGIN TRANSACTION", [], true⟩]) statements with
      ⟨written, hwritten⟩ | ⟨e, failed, before, refused, rest, hsplit, hfailed⟩
    · rw [hwritten]
      rcases traced_command b written (log ++ [⟨"BEGIN TRANSACTION", [], true⟩] ++
        statements.map taken) "COMMIT" with ⟨result, ended, hended⟩
      simp only [hended]
      cases result with
      | ok _ => exact .inl ⟨ended, by simp [Sent.command, Except.toBool]⟩
      | error e =>
        -- everything was taken but the commit
        rcases traced_rollback b ended log (taken_of_initial (prefix_refl statements)
          ⟨"COMMIT", [], false⟩ rfl) with ⟨after, sent, hback, htaken, hlast⟩
        refine .inr ⟨e, after, sent, ?_, htaken, .inr hlast⟩
        rw [← hback]
        simp [Sent.command, Except.toBool]
    · rw [hfailed]
      -- only what comes before the statement that was refused was taken
      rcases traced_rollback b failed log (taken_of_initial ⟨refused :: rest, hsplit.symm⟩
        ⟨refused.sql, refused.params, false⟩ rfl) with ⟨after, sent, hback, htaken, hlast⟩
      refine .inr ⟨e, after, sent, ?_, htaken, .inr hlast⟩
      rw [← hback]
      simp [Sent.command]

end

end Backend

section

variable {change : SchemaChange} {s : Statement}

/-- A text that begins with a long word is longer than the commands that end transactions. -/
theorem Sql.lt_length_render {text : String} (h : 6 < text.length) (rest : Sql) :
    6 < (Sql.render (text ++ rest)).length := by
  have htokens : ((text : Sql) ++ rest).tokens = .word text :: rest.tokens := rfl
  have hword : renderToken (.word text) = text := rfl
  unfold render
  rw [htokens, map_cons, hword, String.join_cons, String.length_append]
  omega

theorem SchemaChange.lt_length_statement (h : s ∈ change.statements) : 6 < s.sql.length := by
  cases change with
  | create table parent | add table column type =>
    rw [mem_singleton.1 h]
    exact Sql.lt_length_render (by decide) _
  | nest parent child counter moves reparent =>
    obtain ⟨move, _, rfl⟩ := mem_map.1 h
    exact Sql.lt_length_render (by decide) _

theorem SchemaChange.lt_length_move (h : s ∈ change.moves) : 6 < s.sql.length := by
  cases change with
  | create table parent | add table column type => cases h
  | nest parent child counter moves reparent =>
    unfold SchemaChange.moves at h
    dsimp only at h
    split at h
    · cases h
    · simp only [mem_cons, not_mem_nil, or_false] at h
      rcases h with rfl | rfl
      · exact Sql.lt_length_render (by decide) _
      · exact Sql.lt_length_render (by decide) _

theorem Batch.lt_length_statement {batch : Batch} (h : s ∈ batch.statements) :
    6 < s.sql.length := by
  unfold Batch.statements at h
  split at h
  · cases h
  · obtain ⟨rows, _, rfl⟩ := mem_map.1 h
    exact Sql.lt_length_render (by decide) _

theorem Insertion.sql_ne_commit {changes : List SchemaChange} {batches : List Batch}
    (h : s ∈ Insertion.statementsOf changes batches) : s.sql ≠ "COMMIT" := by
  have hlong : 6 < s.sql.length := by
    simp only [Insertion.statementsOf, mem_append, mem_flatMap] at h
    rcases h with (⟨change, _, h⟩ | ⟨change, _, h⟩) | ⟨batch, _, h⟩
    · exact lt_length_statement h
    · exact lt_length_move h
    · exact Batch.lt_length_statement h
  intro hcommit
  rw [hcommit] at hlong
  exact absurd hlong (by decide)

end

end Snowbank
