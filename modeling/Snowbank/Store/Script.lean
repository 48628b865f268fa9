import Snowbank.Store.Backend
import Snowbank.Text.Search

/-!
# Scripted Stores

A store that runs nothing. It writes down every statement that it is given,
fails those that its script says, and answers queries with the rows of the
script.
-/

namespace Snowbank

/-- Statements that contain a text fail, a number of times. -/
structure FailRule where
  sql : String
  message : String
  times : Nat

/-- Queries that contain a text have these rows. -/
structure RowRule where
  sql : String
  rows : List (List Cell)

/-- How a statement was given to a store. -/
inductive Access where
  | opening
  | batch
  | execute
  | query
  deriving DecidableEq, Repr

/-- A statement as it was given to a store. -/
structure LogEntry where
  access : Access
  sql : String
  params : List Param

/-- What to fail, what to answer, and what was asked so far, the last first. -/
structure Script where
  fails : List FailRule
  answers : List RowRule
  seen : List LogEntry

namespace Script

/-- A script that has not been asked anything. -/
def ofRules (fails : List FailRule) (answers : List RowRule) : Script := ⟨fails, answers, []⟩

/-- The rules after a statement, and the message if it fails. The first rule
    that applies and has times left is used once. -/
def useRule (sql : String) : List FailRule → Option String × List FailRule
  | [] => (none, [])
  | rule :: rest =>
    if 0 < rule.times && Text.contains sql rule.sql then
      (some rule.message, { rule with times := rule.times - 1 } :: rest)
    else
      let (message, rest) := useRule sql rest
      (message, rule :: rest)

/-- Write down a statement, and fail it if a rule says so. -/
def record (access : Access) (sql : String) (params : List Param) (s : Script) :
    Except String Unit × Script :=
  let s := { s with seen := ⟨access, sql, params⟩ :: s.seen }
  match useRule sql s.fails with
  | (some message, fails) => (.error message, { s with fails })
  | (none, _) => (.ok (), s)

/-- The rows of a query. -/
def rowsOf (sql : String) (s : Script) : List (List Cell) :=
  ((s.answers.find? fun rule => Text.contains sql rule.sql).map RowRule.rows).getD []

/-- The store of a script. -/
def backend : Backend Script where
  openAt path := record .opening path []
  batch sql := record .batch sql []
  execute sql params := record .execute sql params
  query sql params s :=
    match record .query sql params s with
    | (.ok _, s) => (.ok (s.rowsOf sql), s)
    | (.error message, s) => (.error message, s)

/-- What was asked since the last time, in order. -/
def takeLog (s : Script) : List LogEntry × Script := (s.seen.reverse, { s with seen := [] })

/-- One more rule for rows; it takes the place of one for the same text. -/
def addAnswer (rule : RowRule) (answers : List RowRule) : List RowRule :=
  if answers.any fun r => r.sql == rule.sql then
    answers.map fun r => if r.sql == rule.sql then rule else r
  else answers ++ [rule]

/-- More rules. -/
def addRules (fails : List FailRule) (answers : List RowRule) (s : Script) : Script :=
  { s with
    fails := s.fails ++ fails
    answers := answers.foldl (fun all rule => addAnswer rule all) s.answers }

end Script

end Snowbank
