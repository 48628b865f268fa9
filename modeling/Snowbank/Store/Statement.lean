import Snowbank.Snowflake.Shred
import Snowbank.Sql.Basic
import Snowbank.Store.Cell

/-!
# Statements

The statements that keep a store in step with the catalog: its tables and
columns, the rows that move when an array gets a table of its own, the rows of
documents, and the records of the catalog itself.
-/

namespace Snowbank

open Sql (name render word)

/-- A statement for a store. -/
inductive Statement where
  /-- A statement given as text. -/
  | plain (text : String)
  /-- A table; without a parent it holds whole documents. -/
  | createTable (table : String) (parent : Option String)
  | addColumn (table column : String) (type : DataType)
  /-- Rows of a new table of an array, from the rows of the table around it. -/
  | copyRows (parent child : String) (moves : List ColumnMove) (reparent : List String)
  /-- Clear what has been copied, and count one item. -/
  | clearRows (parent counter : String) (moves : List ColumnMove) (reparent : List String)
  | insertRows (table : String) (columns : List String) (rows : List (List Json))
  /-- Drop the record of a column from wherever it was. -/
  | forgetColumn (name : Path) (type : DataType) (tables : List String)
  | recordColumn (column : Column)

namespace Statement

def catalogTable : String := "meta.columns"

/-- The fields of a record of the catalog. -/
def catalogFields : List String :=
  ["name", "es_column", "es_index", "json_type", "nested_path", "cardinality", "count", "multi",
    "partitions", "last_updated"]

/-- Make the table of the catalog. -/
def createCatalog : Statement :=
  .plain ("CREATE SCHEMA IF NOT EXISTS meta; CREATE TABLE IF NOT EXISTS meta.columns (" ++
    "name VARCHAR, es_column VARCHAR, es_index VARCHAR, json_type VARCHAR, " ++
    "nested_path VARCHAR, cardinality BIGINT, count BIGINT, multi BIGINT, " ++
    "partitions VARCHAR, last_updated DOUBLE)")

/-- The records of the catalog. -/
def selectCatalog : Statement :=
  .plain ("SELECT " ++ ", ".intercalate catalogFields ++ " FROM " ++ catalogTable)

/-- The greatest number of a row of a table. -/
def selectMaxUid (table : String) : Statement :=
  .plain (render ("SELECT MAX(" ++ name uidColumn ++ ") FROM " ++ name table))

/-- The tables of the store. -/
def selectTables : Statement :=
  .plain ("SELECT table_name FROM information_schema.tables " ++
    "WHERE table_schema = 'main' AND table_type = 'BASE TABLE'")

/-- The type under which a store keeps values of a type. -/
def storageType : DataType → String
  | .boolean => "BOOLEAN"
  | .integer | .number => "DOUBLE"
  | .presence => "INTEGER"
  | _ => "VARCHAR"

/-- The columns that a table has from the start. -/
def reserved (parent : Option String) : Sql :=
  match parent with
  | none => name uidColumn ++ " BIGINT, " ++ name guidColumn ++ " VARCHAR"
  | some _ =>
    name uidColumn ++ " BIGINT, " ++ name parentColumn ++ " BIGINT, " ++
      name orderColumn ++ " INTEGER"

def nameList (names : List String) : Sql := .join ", " (names.map name)

/-- The rows that get an item: those with a value to move, and those with rows
    in a table that moves below the new one. -/
def movedCondition (moves : List ColumnMove) (reparent : List String) : Sql :=
  .join " OR "
    (moves.map (fun m => name m.source ++ " IS NOT NULL") ++
      reparent.map fun table => name uidColumn ++ " IN (SELECT " ++ name parentColumn ++
        " FROM " ++ name table ++ ")")

/-- A number of question marks. -/
def marks (n : Nat) : String := ", ".intercalate (List.replicate n "?")

/-- The text of a statement. -/
def sql : Statement → String
  | plain text => text
  | createTable table parent =>
    render ("CREATE TABLE IF NOT EXISTS " ++ name table ++ " (" ++ reserved parent ++ ")")
  | addColumn table column type =>
    render ("ALTER TABLE " ++ name table ++ " ADD COLUMN " ++ name column ++ " " ++
      storageType type)
  | copyRows parent child moves reparent =>
    render ("INSERT INTO " ++ name child ++ " (" ++
      nameList ([uidColumn, parentColumn, orderColumn] ++ moves.map ColumnMove.target) ++
      ") SELECT " ++
      .join ", " ([name uidColumn, name uidColumn, word "0"] ++
        moves.map fun m => name m.source) ++
      " FROM " ++ name parent ++ " WHERE " ++ movedCondition moves reparent)
  | clearRows parent counter moves reparent =>
    render ("UPDATE " ++ name parent ++ " SET " ++
      .join ", " ((name counter ++ " = 1") ::
        moves.map fun m => name m.source ++ " = NULL") ++
      " WHERE " ++ movedCondition moves reparent)
  | insertRows table columns rows =>
    render ("INSERT INTO " ++ name table ++ " (" ++ nameList columns ++ ") VALUES " ++
      .join ", " (rows.map fun _ => word ("(" ++ marks columns.length ++ ")")))
  | forgetColumn _ _ tables =>
    "DELETE FROM " ++ catalogTable ++ " WHERE name = ? AND json_type = ? AND es_index IN (" ++
      marks tables.length ++ ")"
  | recordColumn _ =>
    "INSERT INTO " ++ catalogTable ++ " (" ++ ", ".intercalate catalogFields ++ ") VALUES (" ++
      marks catalogFields.length ++ ")"

def params : Statement → List Param
  | insertRows _ _ rows => rows.flatten.map Param.ofJson
  | forgetColumn name type tables => .text name :: .text type.name :: tables.map Param.text
  | recordColumn column =>
    catalogFields.map fun field => .ofJson ((column.toRecord.get? field).getD .null)
  | _ => []

end Statement

/-- The statements that change tables. Rows are moved afterwards, when all
    changes of a plan have been made. -/
def SchemaChange.statements : SchemaChange → List Statement
  | .create table parent => [.createTable table parent]
  | .add table column type => [.addColumn table column type]
  | .nest _ child _ moves _ => moves.map fun m => .addColumn child m.target m.type

/-- The statements that move rows to the new table of an array. Every row
    around it with something to move gets one item, which has its number. -/
def SchemaChange.moves : SchemaChange → List Statement
  | .nest parent child counter moves reparent =>
    if moves.isEmpty && reparent.isEmpty then []
    else [.copyRows parent child moves reparent, .clearRows parent counter moves reparent]
  | _ => []

/-- How many rows one statement inserts at most. -/
def Batch.chunkSize : Nat := 256

/-- A list in pieces of a size, the last of which may be smaller. -/
def chunksOf {α : Type} (size : Nat) (xs : List α) : List (List α) :=
  (List.range ((xs.length + size - 1) / size)).map fun i => (xs.drop (i * size)).take size

/-- The statements that insert the rows of a batch. -/
def Batch.statements (b : Batch) : List Statement :=
  if b.columns.isEmpty then []
  else (chunksOf Batch.chunkSize b.rows).map fun rows => .insertRows b.table b.columns rows

/-- The statements that write the record of a column. Earlier records are
    dropped from all tables around the column, as it may have moved. -/
def Column.statements (c : Column) : List Statement :=
  [.forgetColumn c.name c.type c.tables, .recordColumn c]

end Snowbank
