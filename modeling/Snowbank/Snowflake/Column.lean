import Snowbank.Json.Expect
import Snowbank.Snowflake.Error

/-!
# Columns

The catalog has one column for every path and type under which values are
stored, and one marker of type `nested` for every array of documents that has
a table of its own.

A column lies in the table of the deepest array around its path, and is named
there by its path as seen from that array, with its type.
-/

namespace Snowbank

/-- What identifies a column across all catalogs. -/
structure ColumnKey where
  fact : String
  name : Path
  type : DataType
  deriving DecidableEq, Ord

/-- A column of the catalog. -/
structure Column where
  /-- The path of the values, from the root. -/
  name : Path
  /-- The name in the table; for a marker, the table of the array. -/
  physical : String
  table : String
  type : DataType
  /-- The arrays around the column, deepest first, and the root. -/
  nestedPath : List Path
  cardinality : Option Nat
  count : Option Nat
  /-- The longest array seen; kept for counts of documents. -/
  multi : Option Nat
  partitions : Option (List Json)
  /-- When the column last changed, in seconds since the beginning of 1970. -/
  lastUpdated : Float

namespace Column

/-- The array whose table holds the column. -/
def home (c : Column) : Path := c.nestedPath.head?.getD Path.root

/-- The column is there in a table; a marker is not. -/
def isPhysical (c : Column) : Bool := c.type != .nested

/-- The text without an ending, if it has it. -/
def dropEnd? (text ending : String) : Option String :=
  let cs := text.toList
  let es := ending.toList
  if es.isSuffixOf cs then some (String.ofList (cs.take (cs.length - es.length))) else none

/-- The collection that the column belongs to: its table without the path of the array. -/
def fact (c : Column) : String :=
  if c.home == Path.root then c.table
  else ((dropEnd? c.table c.home).bind (dropEnd? · ".")).getD c.table

/-- The tables around the column, deepest first. -/
def tables (c : Column) : List String :=
  c.nestedPath.map fun path => if path == Path.root then c.fact else c.fact ++ "." ++ path

/-- What identifies the column. -/
def key (c : Column) : ColumnKey := ⟨c.fact, c.name, c.type⟩

/-- The JSON form of a column. -/
def toJson (c : Column) : Json :=
  .mkObj [("name", .str c.name), ("es_column", .str c.physical), ("es_index", .str c.table),
    ("json_type", .str c.type.name), ("nested_path", .strings c.nestedPath),
    ("cardinality", .optNat c.cardinality), ("count", .optNat c.count),
    ("multi", .optNat c.multi), ("partitions", (c.partitions.map Json.arr).getD .null),
    ("last_updated", .float c.lastUpdated)]

/-- The stored form of a column. Lists are stored as JSON text. -/
def toRecord (c : Column) : Json :=
  .mkObj [("name", .str c.name), ("es_column", .str c.physical), ("es_index", .str c.table),
    ("json_type", .str c.type.name), ("nested_path", .str (Json.strings c.nestedPath).toText),
    ("cardinality", .optNat c.cardinality), ("count", .optNat c.count),
    ("multi", .optNat c.multi),
    ("partitions", .optStr (c.partitions.map fun ps => (Json.arr ps).toText)),
    ("last_updated", .float c.lastUpdated)]

def recordText (record : Json) (key : String) : Except SchemaError String :=
  match (record.get? key).bind Json.str? with
  | some text => .ok text
  | none => .error (.recordField key record)

/-- The arrays around a column, from their JSON text. -/
def readNesting (text : String) : Except SchemaError (List Path) :=
  (Json.parseTexts text).mapError fun f => .recordNesting (f.message text)

/-- The partitions of a column, from their JSON text. -/
def readPartitions (record : Json) : Except SchemaError (Option (List Json)) :=
  match (record.get? "partitions").bind Json.str? with
  | none => .ok none
  | some text => (Json.parseItems? text).mapError fun f => .recordPartitions (f.message text)

/-- A column from its stored form. -/
def ofRecord (record : Json) : Except SchemaError Column := do
  let count (key : String) : Option Nat := (record.get? key).bind Json.nat?
  match DataType.ofName? (← recordText record "json_type") with
  | none => throw (.recordType record)
  | some type =>
    let nestedPath ← readNesting (← recordText record "nested_path")
    if nestedPath.getLast? != some Path.root then throw (.recordRoot nestedPath)
    let partitions ← readPartitions record
    return {
      name := ← recordText record "name"
      physical := ← recordText record "es_column"
      table := ← recordText record "es_index"
      type, nestedPath
      cardinality := count "cardinality"
      count := count "count"
      multi := count "multi"
      partitions
      lastUpdated := ((record.get? "last_updated").bind Json.float?).getD 0.0 }

end Column

end Snowbank
