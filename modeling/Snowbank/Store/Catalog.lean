import Snowbank.Query.Reader
import Snowbank.Store.Error
import Snowbank.Store.Statement

/-!
# The Catalog in Memory

The snowflakes of all facts, and the columns that have changed since their
records were last written. A column that changes again before that takes the
place of its earlier version.
-/

namespace Snowbank

/-- Snowflakes by fact, and the columns whose records are to be written. -/
structure Catalog where
  facts : List (String × Snowflake)
  pending : List (ColumnKey × Column)

namespace Catalog

/-- A catalog without facts. -/
def empty : Catalog := ⟨[], []⟩

def snapshot? (c : Catalog) (fact : String) : Option Snowflake := Ordered.get? fact c.facts

/-- The names of the facts, in order. -/
def factNames (c : Catalog) : List String := c.facts.map Prod.fst

/-- The snowflake that a query reads from. -/
def resolve (c : Catalog) (jx : Json) : Except ExecutionError Snowflake :=
  match Query.factName jx with
  | .error e => .error (.query e)
  | .ok fact =>
    match c.snapshot? fact with
    | some s => .ok s
    | none => .error (.unknownFact fact)

/-- Columns to write, over those of an earlier version. -/
def queue (columns : List Column) (pending : List (ColumnKey × Column)) :
    List (ColumnKey × Column) :=
  columns.foldl (fun all c => Ordered.insert c.key c all) pending

/-- Take a new version of a snowflake; the columns that changed are to be written. -/
def publish (c : Catalog) (s : Snowflake) : Catalog :=
  let (dirty, s) := s.takeDirty
  ⟨Ordered.insert s.fact s c.facts, queue dirty c.pending⟩

/-- Take the columns to write. -/
def takePending (c : Catalog) : List Column × Catalog :=
  (c.pending.map Prod.snd, { c with pending := [] })

/-- Put columns back that could not be written, except those that have changed since. -/
def requeue (c : Catalog) (columns : List Column) : Catalog :=
  { c with
    pending := columns.foldl (fun all col =>
      if Ordered.contains col.key all then all else Ordered.insert col.key col all) c.pending }

end Catalog

end Snowbank
