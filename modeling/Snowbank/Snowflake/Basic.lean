import Snowbank.Schema
import Snowbank.Snowflake.Column

/-!
# Snowflakes

A snowflake is the catalog of one collection of documents: a table for the
documents, a table for every array of documents in them, and the columns of
these tables. Every row of every table has a number of its own.
-/

namespace Snowbank

open Ordered (elems get? insert sortBy)

/-- The catalog of one collection. -/
structure Snowflake where
  /-- The name of the collection, which is also that of its table. -/
  fact : String
  columns : List Column
  /-- The paths of arrays with a table of their own, in order. -/
  nested : List Path
  /-- The number of the next row of each table. -/
  nextUid : List (String × Int)
  /-- The columns that have changed and are not yet stored. -/
  dirty : List ColumnKey
  /-- The present, with which changed columns are stamped. -/
  clock : Float

namespace Snowflake

/-- The catalog of an empty collection. -/
def empty (fact : String) : Snowflake :=
  { fact, columns := [], nested := [], nextUid := [(fact, 1)], dirty := [], clock := 0.0 }

/-- The table of the rows at an array of documents, or at the root. -/
def tableName (s : Snowflake) (nestedPath : Path) : String :=
  if nestedPath == Path.root then s.fact else s.fact ++ "." ++ nestedPath

/-- The path whose rows a table holds, if it is a table of this catalog. -/
def nestedPathOfTable? (s : Snowflake) (table : String) : Option Path :=
  if table == s.fact then some Path.root
  else s.nested.find? fun path => s.fact ++ "." ++ path == table

/-- The arrays with a table of their own, the shallowest first. -/
def nestedPaths (s : Snowflake) : List Path :=
  sortBy (fun a b => a.depth ≤ b.depth) s.nested

/-- All tables, parents before children. -/
def tables (s : Snowflake) : List String :=
  s.fact :: s.nestedPaths.map s.tableName

/-- The arrays that a path lies in, the deepest first, and the root. -/
def nestedPathList (s : Snowflake) (path : Path) : List Path :=
  sortBy (fun a b => b.depth ≤ a.depth) (s.nested.filter path.isUnder) ++ [Path.root]

/-- The deepest array that a path lies in. -/
def nestedPathOf (s : Snowflake) (path : Path) : Path :=
  (s.nestedPathList path).head?.getD Path.root

/-- The deepest array that a path lies in without being that array. -/
def parentNestedPath (s : Snowflake) (path : Path) : Path :=
  ((s.nestedPathList path).find? (· != path)).getD Path.root

/-- The columns at a path, one for each type. -/
def columnsAt (s : Snowflake) (path : Path) : List Column :=
  s.columns.filter fun c => c.name == path

def find? (s : Snowflake) (path : Path) (type : DataType) : Option Column :=
  s.columns.find? fun c => c.name == path && c.type == type

/-- The columns that a query about an array can read: those of the array, of
    what is around it and of what is in it. -/
def visibleColumns (s : Snowflake) (queryPath : Path) : List Column :=
  s.columns.filter fun c => queryPath.isUnder c.home || c.home.isUnder queryPath

/-- The columns that are there in a table. -/
def tableColumns (s : Snowflake) (table : String) : List Column :=
  s.columns.filter fun c => c.isPhysical && c.table == table

/-- The path is an array with a table of its own. -/
def isNested (s : Snowflake) (path : Path) : Bool := s.nested.contains path

/-- The types stored at a path, in order and each once. -/
def typesAt (s : Snowflake) (path : Path) : List DataType :=
  elems ((s.columnsAt path).map Column.type)

/-- Something is stored beneath a path. -/
def hasDescendants (s : Snowflake) (path : Path) : Bool :=
  s.columns.any fun c => c.name != path && c.name.isUnder path

/-- What queries see of a catalog. -/
def schema (s : Snowflake) : Schema where
  fact := s.fact
  typesAt := fun path => some (s.typesAt path)
  isNested := s.isNested
  nestedPathOf := s.nestedPathOf
  hasDescendants := s.hasDescendants

/-- The number for the next row of a table, and the catalog without it. -/
def takeUid (s : Snowflake) (table : String) : Int × Snowflake :=
  let uid := (get? table s.nextUid).getD 1
  (uid, { s with nextUid := insert table (uid + 1) s.nextUid })

/-- Mark a column as changed. -/
def markDirty (s : Snowflake) (c : Column) : Snowflake :=
  { s with dirty := Ordered.insertElem c.key s.dirty }

/-- The columns that have changed since they were last taken. -/
def takeDirty (s : Snowflake) : List Column × Snowflake :=
  (s.columns.filter fun c => s.dirty.contains c.key, { s with dirty := [] })

/-- A catalog from its columns and the greatest number of a row of each table. -/
def ofColumns (fact : String) (columns : List Column) (maxUids : List (String × Int)) :
    Snowflake :=
  let markers := (columns.filter fun c => !c.isPhysical).map Column.name
  let known := maxUids.foldl (fun uids (table, max) => insert table (max + 1) uids)
    [(fact, 1)]
  let s : Snowflake :=
    { fact, columns, nested := elems markers, nextUid := known, dirty := [], clock := 0.0 }
  let nextUid := s.tables.foldl
    (fun uids table => if Ordered.contains table uids then uids else insert table 1 uids)
    known
  { s with nextUid }

end Snowflake

end Snowbank
