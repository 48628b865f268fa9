import Snowbank.Sql.Columns

/-!
# Columns of a Result

Every column of a result has a place in the answer: an output, and a path
inside it. Columns with the same output share a column of the answer.
-/

namespace Snowbank

/-- The place of a column of a result in the answer. -/
structure ColumnMapping where
  /-- The output, by name. -/
  pushName : String
  /-- The position of the output. -/
  pushColumn : Nat
  /-- The path inside the output. -/
  pushChild : Path
  /-- The position of the column in the result. -/
  pull : Nat
  isEdge : Bool
  /-- How many outputs there are. -/
  numPushColumns : Nat
  type : DataType

/-- A column of a result, with what it is for. -/
structure ResultColumn where
  sql : Sql
  output : String
  child : Path
  type : DataType
  isEdge : Bool

namespace ResultColumn

/-- A column that is an output of its own. -/
def plain (sql : Sql) (output : String) (type : DataType) : ResultColumn :=
  ⟨sql, output, Path.root, type, false⟩

def nameAt (i : Nat) : String := "__c" ++ toString i

/-- The places of the columns of a result. Outputs are counted in the order in
    which they first appear. -/
def mapping (columns : List ResultColumn) : List ColumnMapping :=
  let outputs := (columns.map ResultColumn.output).eraseDups
  columns.zipIdx.map fun (c, i) =>
    ⟨c.output, outputs.idxOf c.output, c.child, i, c.isEdge, outputs.length, c.type⟩

end ResultColumn

/-- Values under names, as SQL selects them. -/
def Sql.selectList (columns : List (Sql × String)) : Sql :=
  .join ", " (columns.map fun (value, key) => value ++ " AS " ++ .name key)

def Sql.numberedList (values : List Sql) : Sql :=
  selectList (values.zipIdx.map fun (value, i) => (value, ResultColumn.nameAt i))

def ResultColumn.selectList (columns : List ResultColumn) : Sql :=
  .numberedList (columns.map ResultColumn.sql)

end Snowbank
