import Snowbank.Plan.Basic

/-!
# Plans for Whole Documents

The rows that the query selects are numbered in order. The result has the
rows of every table that belong to them, in an order in which each row comes
after its parent and before the next row of the parent's table: by the number
of the selected row, and then level by level by the table and the position in
its array.
-/

namespace Snowbank.Plan

/-- The table of the selected rows. -/
def rowsTable : Sql := .name "__rows"

def positionColumn (depth : Nat) : String := "__o" ++ toString depth

/-- The column of the table at a depth. -/
def kindColumn (depth : Nat) : String := "__k" ++ toString depth

/-- The arrays that hold parts of the documents at a path, itself first. -/
def documentPaths (s : Snowflake) (root : Path) : List Path :=
  root :: s.nestedPaths.filter fun n => n != root && n.isUnder root

/-- How many arrays an array lies beneath another one. -/
def depthBelow (s : Snowflake) (root nested : Path) : Nat :=
  (s.nestedPathList nested).length - (s.nestedPathList root).length

/-- The greatest depth of the documents at a path. -/
def maxDepth (s : Snowflake) (root : Path) : Nat :=
  ((documentPaths s root).map (depthBelow s root)).foldl max 0

/-- The columns that every row has: its table, its number, that of its parent,
    and its place in the order. -/
def headColumns (s : Snowflake) (root : Path) : List ResultColumn :=
  let column (name : String) : ResultColumn := .plain .empty name .integer
  [kindColumn 0, "__uid", "__pid", positionColumn 0].map column ++
    (List.range (maxDepth s root)).flatMap fun d =>
      [column (kindColumn (d + 1)), column (positionColumn (d + 1))]

/-- The columns of values of an array. -/
def valueColumnsOf (s : Snowflake) (nested : Path) : List Column :=
  s.columns.filter fun c => c.isValue && c.home == nested

/-- All columns of values, in the order of arrays. -/
def cellColumns (s : Snowflake) (root : Path) : List Column :=
  (documentPaths s root).flatMap (valueColumnsOf s)

def documentColumns (s : Snowflake) (root : Path) : List ResultColumn :=
  let head := headColumns s root
  head ++ (cellColumns s root).zipIdx.map fun (c, i) =>
    ⟨.empty, ResultColumn.nameAt (head.length + i), c.physical, c.type, false⟩

/-- The position of the array around one. -/
def parentIndex (s : Snowflake) (root nested : Path) : Option Nat :=
  (documentPaths s root).findIdx? (· == s.parentNestedPath nested)

/-- The layouts of arrays from a position in the result on. -/
def tableLayouts (s : Snowflake) (root : Path) : Nat → List Path → List TableLayout
  | _, [] => []
  | pull, nested :: rest =>
    let columns := valueColumnsOf s nested
    let parent := if nested == root then none else parentIndex s root nested
    let path :=
      match parent.bind fun p => (documentPaths s root)[p]? with
      | some above => nested.relativeTo above
      | none => Path.root
    ⟨nested, path, parent, columns.zipIdx.map fun (c, i) => (pull + i, c.physical)⟩ ::
      tableLayouts s root (pull + columns.length) rest

/-- Which column of the result holds what. -/
def layout (s : Snowflake) (root : Path) : DocumentLayout :=
  ⟨0, 1, 2, tableLayouts s root (headColumns s root).length (documentPaths s root)⟩

/-- The arrays from the selected rows down to one, by position. There are no
    more than there are arrays. -/
def chainOf (tables : List TableLayout) : Nat → Nat → List Nat
  | 0, i => [i]
  | n + 1, i =>
    match (tables[i]?).bind TableLayout.parent with
    | none => [i]
    | some p => chainOf tables n p ++ [i]

/-- The selected rows, numbered in order. -/
def rowsCte (q : Query) (scope : Scope) : Except CompileError Sql := do
  let uid := scope.tableAlias.column uidColumn
  let keys ← sortTerms scope q.sort
  let filter ← filterSql scope q
  let position := Sql.name (positionColumn 0)
  return rowsTable ++ " AS (SELECT " ++ uid ++ " AS \"__id\", ROW_NUMBER() OVER (ORDER BY " ++
    .join ", " (keys ++ [uid ++ " ASC"]) ++ ") AS " ++ position ++ " FROM " ++ scope.fromClause ++
    " WHERE " ++ filter ++ " ORDER BY " ++ position ++ " LIMIT " ++ limitSql q ++ ")"

/-- The path of the array at a position. -/
def pathAt (tables : List TableLayout) (i : Nat) : Path :=
  ((tables[i]?).map TableLayout.nestedPath).getD Path.root

/-- The values of the columns of a row of one array. -/
def branchValues (s : Snowflake) (root : Path) (tables : List TableLayout) (index : Nat)
    (chain : List Nat) : List Sql :=
  let nested := pathAt tables index
  let places := (List.range (maxDepth s root)).flatMap fun d =>
    match chain[d + 1]? with
    | some (t : Nat) => [Sql.int (t : Nat), s.columnOf (pathAt tables t) orderColumn]
    | none => ["NULL", "NULL"]
  let cells := (documentPaths s root).zipIdx.flatMap fun (path, i) =>
    (valueColumnsOf s path).map fun c =>
      if i == index then s.columnOf nested c.physical else "NULL"
  [Sql.int index, s.columnOf nested uidColumn,
    if index == 0 then "NULL" else s.columnOf nested parentColumn,
    rowsTable.column (positionColumn 0)] ++ places ++ cells

/-- The rows of one array that belong to the selected rows. -/
def branch (scope : Scope) (tables : List TableLayout) (index : Nat) : Sql :=
  let s := scope.snowflake
  let root := scope.path
  let chain := chainOf tables tables.length index
  let first := rowsTable ++ " JOIN " ++ s.table root ++ " " ++ scope.tableAlias ++ " ON " ++
    scope.tableAlias.column uidColumn ++ " = " ++ rowsTable.column "__id"
  let tablesSql := s.joinChain first (pathAt tables (chain.head?.getD 0))
    (chain.tail.map (pathAt tables))
  "SELECT " ++ .numberedList (branchValues s root tables index chain) ++ " FROM " ++ tablesSql

/-- The order of the rows of the result. -/
def documentOrder (depth : Nat) : List Sql :=
  let column (i : Nat) : Sql := .name (ResultColumn.nameAt i)
  (column 3 ++ " ASC") :: (List.range depth).flatMap fun d =>
    [column (2 * d + 4) ++ " ASC NULLS FIRST", column (2 * d + 5) ++ " ASC NULLS FIRST"]

def wholeDocuments (q : Query) (scope : Scope) : Except CompileError Plan := do
  let s := scope.snowflake
  let root := scope.path
  let layout := layout s root
  let rows ← rowsCte q scope
  let branches := (List.range layout.tables.length).map (branch scope layout.tables)
  let sql : Sql := "WITH " ++ rows ++ " " ++ .join " UNION ALL " branches ++ " ORDER BY " ++
    .join ", " (documentOrder (maxDepth s root))
  return ⟨sql, .documents, ResultColumn.mapping (documentColumns s root), some layout⟩

end Snowbank.Plan
