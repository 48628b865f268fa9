import Snowbank.Snowflake.Basic

/-!
# Growth of a Catalog

New columns and new tables. Each change of the catalog comes with what has to
be done to the stored tables.

An array of documents can appear at a path where single values are stored
already. These become arrays of one: each row that has a value beneath the
path gets one child row, and the values move there.
-/

namespace Snowbank

/-- A column that moves from a table to the table of an array in it. -/
structure ColumnMove where
  source : String
  target : String
  type : DataType

/-- What has to be done to the tables when a catalog grows. -/
inductive SchemaChange where
  /-- A table; that of an array has a parent. -/
  | create (table : String) (parent : Option String)
  | add (table column : String) (type : DataType)
  /-- Each row of `parent` that has a value to move, or rows in a table of
      `reparent`, gets one row in `child`. That row has the number of the
      parent row, which is why the rows of `reparent` need no change. -/
  | nest (parent child counter : String) (moves : List ColumnMove) (reparent : List String)

namespace Snowflake

/-- The array in whose table values of a type at a path are stored. The count
    and the marker of an array are stored outside it. -/
def homeOf (s : Snowflake) (path : Path) (type : DataType) : Path :=
  match type with
  | .presence | .nested => s.parentNestedPath path
  | _ => s.nestedPathOf path

/-- The name of a column in its table. -/
def physicalName (s : Snowflake) (path : Path) (type : DataType) (home : Path) : String :=
  match type with
  | .nested => s.tableName path
  | type => (path.relativeTo home).typed type

/-- Put a column where the arrays of the catalog say. -/
def place (s : Snowflake) (c : Column) : Column :=
  let home := s.homeOf c.name c.type
  { c with
    table := s.tableName home
    nestedPath := s.nestedPathList home
    physical := s.physicalName c.name c.type ((s.nestedPathList home).head?.getD Path.root)
    lastUpdated := s.clock }

def newColumn (s : Snowflake) (path : Path) (type : DataType) : Column :=
  s.place {
    name := path, physical := "", table := "", type, nestedPath := [], cardinality := none
    count := none, multi := none, partitions := none, lastUpdated := s.clock }

/-- Put a new column into the catalog. -/
def push (s : Snowflake) (c : Column) : Snowflake :=
  { s with columns := s.columns ++ [c] }.markDirty c

/-- The column for a path and a stored type, made if there is none. -/
def ensureColumn (s : Snowflake) (path : Path) (type : DataType) :
    Column × List SchemaChange × Snowflake :=
  match s.find? path type with
  | some c => (c, [], s)
  | none =>
    let c := s.newColumn path type
    (c, [.add c.table c.physical type], s.push c)

/-- A column beneath a new array, and its move if it changes its table. -/
def relocate (s : Snowflake) (parent child : String) (c : Column) : Column × Option ColumnMove :=
  let moved := s.place c
  if c.isPhysical && c.table == parent && moved.table == child then
    (moved, some ⟨c.physical, moved.physical, c.type⟩)
  else (moved, none)

/-- Put the columns beneath a new array where they belong. -/
def relocateAll (s : Snowflake) (path : Path) (parent child : String) :
    Snowflake × List ColumnMove :=
  let below := s.columns.filter fun c => c.name.isUnder path
  let moves := below.filterMap fun c => (s.relocate parent child c).2
  let columns := s.columns.map fun c =>
    if c.name.isUnder path then (s.relocate parent child c).1 else c
  let dirty := (columns.filter fun c => c.name.isUnder path).foldl
    (fun keys c => Ordered.insertElem c.key keys) s.dirty
  ({ s with columns, dirty }, moves)

/-- The tables of arrays that come to lie in a new array. -/
def reparented (s : Snowflake) (path : Path) : List String :=
  let parent := s.nestedPathOf path
  (s.nested.filter fun n => n.isUnder path && s.parentNestedPath n == parent).map s.tableName

/-- A table for the array at a path that is not the root and has none. -/
def nestNew (s : Snowflake) (path : Path) : List SchemaChange × Snowflake :=
  let parent := s.tableName (s.nestedPathOf path)
  let child := s.tableName path
  let reparent := s.reparented path
  let s := { s with
    nested := Ordered.insertElem path s.nested
    nextUid := Ordered.insert child ((Ordered.get? parent s.nextUid).getD 1) s.nextUid }
  let (s, moves) := s.relocateAll path parent child
  let s := s.push (s.newColumn path .nested)
  let (counter, added, s) := s.ensureColumn path .presence
  let migration : List SchemaChange :=
    if moves.isEmpty && reparent.isEmpty then []
    else [.nest parent child counter.physical moves reparent]
  (.create child (some parent) :: added ++ migration, s)

/-- A table for the array at a path. The documents themselves are not in an array. -/
def nest (s : Snowflake) (path : Path) : Except SchemaError (List SchemaChange × Snowflake) :=
  if path == Path.root then .error (.incompatible path .nested)
  else if s.isNested path then .ok ([], s)
  else .ok (s.nestNew path)

/-- A column for a path and a type. Values are stored by their stored type,
    and an array of documents is stored in a table. -/
def addColumn (s : Snowflake) (path : Path) (type : DataType) :
    Except SchemaError (Column × List SchemaChange × Snowflake) :=
  match type.storage with
  | .nested => do
    let (changes, s) ← s.nest path
    match s.find? path .nested with
    | some marker => return (marker, changes, s)
    | none => throw (.incompatible path .nested)
  | .presence =>
    if s.isNested path then .ok (s.ensureColumn path .presence)
    else .error (.incompatible path .presence)
  | type => .ok (s.ensureColumn path type)

/-- Replace the first column for a path and a type. -/
def replaceColumn (column : Column) : List Column → List Column
  | [] => []
  | c :: rest =>
    if c.name == column.name && c.type == column.type then column :: rest
    else c :: replaceColumn column rest

/-- Keep the length of an array, if it is the longest at its path. -/
def observeLength (s : Snowflake) (path : Path) (length : Nat) : Snowflake :=
  match s.find? path .presence with
  | none => s
  | some c =>
    if c.multi.all (· < length) then
      let seen := { c with multi := some length, lastUpdated := s.clock }
      { s with columns := replaceColumn seen s.columns }.markDirty seen
    else s

end Snowflake

end Snowbank
