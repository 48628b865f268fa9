import Snowbank.Plan.Mapping
import Snowbank.Sql.Translate

/-!
# Plans

A plan is the SQL for a query together with what is needed to build the
answer from its result.
-/

namespace Snowbank

/-- The kinds of statements. -/
inductive Shape where
  /-- A row of the result for every row of the query. -/
  | setop
  /-- Whole documents, from all tables that hold parts of them. -/
  | documents
  /-- One row that brings all rows together. -/
  | aggregate
  | grouped
  /-- A row for every combination of partitions. -/
  | edges
  deriving DecidableEq, Repr

namespace Shape

def name : Shape → String
  | setop => "setop"
  | documents => "documents"
  | aggregate => "aggregate"
  | grouped => "grouped"
  | edges => "edges"

/-- The query asks for whole documents and nothing else. -/
def isWhole (q : Query) : Bool :=
  match q.select with
  | [c] => q.window.isEmpty && c.name == wholeDocument
  | _ => false

def ofQuery (q : Query) : Shape :=
  if !q.edges.isEmpty then edges
  else if !q.groupby.isEmpty then grouped
  else if q.isAggregate then aggregate
  else if isWhole q then documents
  else setop

end Shape

/-- The rows of one table in a result of documents. -/
structure TableLayout where
  nestedPath : Path
  /-- Where the rows go in a row of the parent. -/
  path : Path
  /-- The table around this one, by position. -/
  parent : Option Nat
  /-- The columns of values, by position in the result and name. -/
  columns : List (Nat × String)

/-- How the rows of a result make up documents. -/
structure DocumentLayout where
  /-- The column that says which table a row is from. -/
  kind : Nat
  uid : Nat
  pid : Nat
  tables : List TableLayout

/-- The SQL of a query, and what is needed to build the answer. -/
structure Plan where
  sql : Sql
  shape : Shape
  mapping : List ColumnMapping
  documents : Option DocumentLayout

namespace Plan

/-- A sort term; without a direction there is none. -/
def sortTerm? (value : Sql) (direction : Int) : Option Sql :=
  if direction > 0 then some (value ++ " ASC NULLS LAST")
  else if direction < 0 then some (value ++ " DESC NULLS LAST")
  else none

/-- The sort terms of keys that are read from the rows of a scope. -/
def sortTerms (scope : Scope) (keys : List SortKey) : Except CompileError (List Sql) := do
  let terms ← keys.mapM fun key =>
    (scope.translate key.value).map fun value => sortTerm? value key.direction
  return terms.filterMap id

def filterSql (scope : Scope) (q : Query) : Except CompileError Sql :=
  scope.translate q.filter

/-- The most rows of the answer. -/
def limitSql (q : Query) : Sql := .int (min q.limit 0x7FFFFFFFFFFFFFFF)

/-- A number as a signed 64-bit integer. -/
def countSql (n : Nat) : Sql := .int (Int.bmod n 0x10000000000000000)

/-- The value to show in place of a missing one. -/
def shownDefault (c : SelectColumn) : Option Json := c.default.filter (!·.isNull)

end Plan

end Snowbank
