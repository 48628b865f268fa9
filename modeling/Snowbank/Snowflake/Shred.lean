import Snowbank.Snowflake.Change

/-!
# Storing Documents

Documents are taken apart into rows. Every array of documents gets a table
first, so that the tables have their final shape when rows are made.

What a document holds, seen with that shape, is a row: cells, each with a
path and a type, and rows of arrays beneath it. From that the columns that
are needed and the numbers of the rows follow. An array that holds arrays is
stored as JSON text, and an array without items is not stored at all.
-/

namespace Snowbank

/-- The column of the number of a row. -/
def uidColumn : String := "__id__"

/-- The column of the name of a document. -/
def guidColumn : String := "__guid__"

/-- The column of the number of the parent row. -/
def parentColumn : String := "__parent__"

/-- The column of the position in an array. -/
def orderColumn : String := "__order__"

namespace Snowflake

/-- The items of an array need a table: there are some, and none is an array itself. -/
def needsTable (items : List Json) : Bool :=
  items.any (!·.isNull) && !items.any Json.isArr

mutual

/-- The arrays in a value that need a table, outer ones first. -/
def arrays (path : Path) : Json → List Path
  | .obj fields => arraysInFields path fields
  | .arr items => if needsTable items then path :: arraysInItems path items else []
  | _ => []

/-- The arrays in fields that need a table. -/
def arraysInFields (path : Path) : List (String × Json) → List Path
  | [] => []
  | (key, value) :: rest =>
    arrays (path.append (Path.escapeKey key)) value ++ arraysInFields path rest

/-- The arrays in the documents of an array that need a table. -/
def arraysInItems (path : Path) : List Json → List Path
  | [] => []
  | .obj fields :: rest => arraysInFields path fields ++ arraysInItems path rest
  | _ :: rest => arraysInItems path rest

end

/-- The tables that documents ask for, up to a value that is no document. -/
def demands : List Json → List (Except SchemaError Path)
  | [] => []
  | .obj fields :: rest => (arraysInFields Path.root fields).map .ok ++ demands rest
  | value :: _ => [.error (.notObject (.ofJson value))]

/-- Make the tables asked for, in turn, until one cannot be made. The catalog
    keeps those made before. -/
def nestAll (s : Snowflake) : List (Except SchemaError Path) →
    Except SchemaError (List SchemaChange) × Snowflake
  | [] => (.ok [], s)
  | .error e :: _ => (.error e, s)
  | .ok path :: rest =>
    match s.nest path with
    | .error e => (.error e, s)
    | .ok (changes, s) =>
      match s.nestAll rest with
      | (.ok more, s) => (.ok (changes ++ more), s)
      | (.error e, s) => (.error e, s)

end Snowflake

/-- What a row holds: a value of a type at a path, or the rows of an array. -/
inductive Entry where
  | cell (path : Path) (type : DataType) (value : Json)
  | rows (path : Path) (items : List (List Entry))

namespace Entry

/-- A value that is stored in one cell. -/
def scalar (path : Path) (value : Json) : List Entry := [cell path (.ofJson value) value]

/-- An array that is stored as text. -/
def text (path : Path) (items : List Json) : List Entry :=
  [cell path .object (.str (Json.arr items).toText)]

mutual

/-- What a value at a path holds, in a row of the array `home`. A single value
    at the path of an array is an array of one. -/
def ofJson (isNested : Path → Bool) (home path : Path) : Json → List Entry
  | .null => []
  | .obj fields =>
    if path != home && isNested path then [rows path [ofFields isNested path path fields]]
    else ofFields isNested home path fields
  | .arr items =>
    if !items.any (!·.isNull) then []
    else if path != home && isNested path then [rows path (ofItems isNested path items)]
    else text path items
  | value =>
    if path != home && isNested path then [rows path [scalar path value]]
    else scalar path value

/-- What fields hold. -/
def ofFields (isNested : Path → Bool) (home path : Path) : List (String × Json) → List Entry
  | [] => []
  | (key, value) :: rest =>
    ofJson isNested home (path.append (Path.escapeKey key)) value ++
      ofFields isNested home path rest

/-- The rows of the items of an array; null is no item. -/
def ofItems (isNested : Path → Bool) (path : Path) : List Json → List (List Entry)
  | [] => []
  | .null :: rest => ofItems isNested path rest
  | .obj fields :: rest => ofFields isNested path path fields :: ofItems isNested path rest
  | .arr items :: rest => text path items :: ofItems isNested path rest
  | value :: rest => scalar path value :: ofItems isNested path rest

end

end Entry

/-- The cells of a row, by column. -/
abbrev Row := Fields

/-- Rows made so far, with the catalog they are made for. -/
structure Shredding where
  snowflake : Snowflake
  changes : List SchemaChange
  /-- The rows of each table. -/
  rows : List (String × List Row)

namespace Shredding

/-- Put a value into a row, in the column for its path and type. -/
def store (st : Shredding) (row : Row) (path : Path) (type : DataType) (value : Json) :
    Shredding × Row :=
  let (column, changes, s) := st.snowflake.ensureColumn path type.storage
  ({ st with snowflake := s, changes := st.changes ++ changes },
    Ordered.insert column.physical value row)

/-- A finished row. -/
def push (st : Shredding) (table : String) (row : Row) : Shredding :=
  { st with rows := Ordered.update table [] (· ++ [row]) st.rows }

mutual

/-- Store what a row holds. -/
def entries (st : Shredding) (uid : Int) (row : Row) : List Entry → Shredding × Row
  | [] => (st, row)
  | .cell path type value :: rest =>
    let (st, row) := st.store row path type value
    entries st uid row rest
  | .rows path items :: rest =>
    let (st, row) := st.store row path .presence (.nat items.length)
    let st := { st with snowflake := st.snowflake.observeLength path items.length }
    entries (children st uid path 0 items) uid row rest

/-- Store the rows of an array, from a position on. -/
def children (st : Shredding) (parent : Int) (path : Path) (order : Nat) :
    List (List Entry) → Shredding
  | [] => st
  | item :: rest =>
    let table := st.snowflake.tableName path
    let (uid, s) := st.snowflake.takeUid table
    let row : Row := Ordered.ofList
      [(uidColumn, .int uid), (parentColumn, .int parent), (orderColumn, .nat order)]
    let (st, row) := entries { st with snowflake := s } uid row item
    children (st.push table row) parent path (order + 1) rest

end

/-- Store a document under a name. -/
def document (st : Shredding) (guid : String) (doc : Json) : Shredding :=
  let table := st.snowflake.fact
  let (uid, s) := st.snowflake.takeUid table
  let row : Row := Ordered.ofList [(uidColumn, .int uid), (guidColumn, .str guid)]
  let (st, row) := entries { st with snowflake := s } uid row
    (Entry.ofJson s.isNested Path.root Path.root doc)
  st.push table row

end Shredding

/-- Rows for one table; each has a value for every column. -/
structure Batch where
  table : String
  columns : List String
  rows : List (List Json)

/-- What storing documents takes. -/
structure Shredded where
  /-- What has to be done to the tables first. -/
  changes : List SchemaChange
  /-- The rows, parents before children. -/
  batches : List Batch

namespace Snowflake

/-- The columns that every row of a table has. -/
def reservedColumns (s : Snowflake) (table : String) : List String :=
  if table == s.fact then [uidColumn, guidColumn] else [uidColumn, parentColumn, orderColumn]

/-- The rows of a table, with a cell for every column that one of them has. -/
def batch (s : Snowflake) (table : String) (rows : List Row) : Batch :=
  let reserved := s.reservedColumns table
  let used := Ordered.elems ((rows.flatMap fun row => row.map Prod.fst).filter
    fun column => !reserved.contains column)
  let columns := reserved ++ used
  ⟨table, columns, rows.map fun row => columns.map fun c => (Ordered.get? c row).getD .null⟩

/-- The rows of all tables. -/
def batches (s : Snowflake) (rows : List (String × List Row)) : List Batch :=
  s.tables.filterMap fun table => (Ordered.get? table rows).map (s.batch table)

/-- Take documents apart into rows, each document under its name. Documents
    that cannot be stored leave the catalog as it was when that was found. -/
def shred (s : Snowflake) (docs : List (String × Json)) : Except SchemaError Shredded × Snowflake :=
  match s.nestAll (demands (docs.map Prod.snd)) with
  | (.error e, s) => (.error e, s)
  | (.ok changes, s) =>
    let st := docs.foldl (fun st (guid, doc) => Shredding.document st guid doc) ⟨s, changes, []⟩
    (.ok ⟨st.changes, st.snowflake.batches st.rows⟩, st.snowflake)

end Snowflake

end Snowbank
