import Snowbank.Snowflake.Error
import Snowbank.Sql.Error

/-!
# Errors of Execution

Why a request to a database fails.
-/

namespace Snowbank

/-- Why a request to a database fails. -/
inductive ExecutionError where
  | query (cause : QueryError)
  | compile (cause : CompileError)
  | schema (cause : SchemaError)
  /-- The store refuses a statement. -/
  | execute (message sql : String)
  /-- The transaction is over, by an error or otherwise. -/
  | transaction (cause : String)
  | unknownFact (fact : String)
  /-- Nothing answers any more. -/
  | stopped

namespace ExecutionError

def kind : ExecutionError → ErrorKind
  | query cause => cause.kind
  | compile cause => cause.kind
  | schema cause => cause.kind
  | execute _ _ | stopped => .execute
  | transaction _ => .transaction
  | unknownFact _ => .schema

/-- How much of a statement an error shows, in characters. -/
def shownLength : Nat := 200

/-- The beginning of a statement, as errors show it. -/
def shown (sql : String) : String :=
  let cs := sql.toList
  if cs.length ≤ shownLength then sql else String.ofList (cs.take shownLength) ++ "..."

def message : ExecutionError → String
  | query cause => cause.message
  | compile cause => cause.message
  | schema cause => cause.message
  | execute message sql => "Database error: " ++ message ++ "\n  sql: " ++ shown sql
  | transaction cause => "Transaction already failed: " ++ cause
  | unknownFact fact => "Unknown fact table: " ++ fact
  | stopped => "Database worker stopped"

end ExecutionError

end Snowbank
