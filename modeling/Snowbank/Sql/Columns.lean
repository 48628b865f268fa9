import Snowbank.Sql.Scope

/-!
# Stored Values in SQL

The values that a catalog stores at a path, in SQL: plain columns, columns of
several types brought to one, whole documents, and tests whether anything is
there.
-/

namespace Snowbank

namespace Sql

/-- A number as text; whole numbers have no decimals. -/
def numberText (n : Sql) : Sql :=
  "CASE WHEN " ++ n ++ " = TRUNC(" ++ n ++ ") AND ABS(" ++ n ++
    ") < 1e15 THEN CAST(CAST(" ++ n ++ " AS BIGINT) AS VARCHAR) ELSE CAST(" ++ n ++
    " AS VARCHAR) END"

def cast (value : Sql) (source target : DataType) : Sql :=
  if source.storage == target.storage then value
  else if source.isNumeric then numberText value
  else if target.isNumeric then
    if source == .boolean then "CAST(" ++ value ++ " AS INTEGER)"
    else "TRY_CAST(" ++ value ++ " AS DOUBLE)"
  else if source == .boolean then
    "CASE WHEN " ++ value ++ " THEN 'true' WHEN NOT " ++ value ++ " THEN 'false' END"
  else "CAST(" ++ value ++ " AS VARCHAR)"

def asText (value : Sql) (type : DataType) : Sql :=
  if type == .null then value else cast value type .string

def asNumber (value : Sql) (type : DataType) : Sql :=
  if type == .null then value else cast value type .number

/-- The first value that is not null. -/
def coalesce (values : List Sql) : Sql :=
  "COALESCE(" ++ join ", " values ++ ")"

/-- The fields of a struct; without any there is no struct. -/
def struct (fields : List (String × Sql)) : Sql :=
  if fields.isEmpty then "NULL"
  else
    "struct_pack(" ++ join ", " (fields.map fun (key, value) => name key ++ " := " ++ value) ++ ")"

end Sql

namespace Column

/-- The column holds values; a count of documents does not. -/
def isValue (c : Column) : Bool := c.isPhysical && c.type != .presence

end Column

namespace Snowflake

def stored (s : Snowflake) (c : Column) : Sql := s.columnOf c.home c.physical

/-- The columns that hold the values at a path, in the order of types. -/
def valueColumns (s : Snowflake) (path : Path) : List Column :=
  Ordered.sortBy (fun a b => (compare a.type b.type).isLE)
    ((s.columnsAt path).filter Column.isValue)

/-- The columns of a field as one value of a type. -/
def merged (s : Snowflake) (columns : List Column) (target : DataType) : Sql :=
  match columns.map fun c => Sql.cast (s.stored c) c.type target with
  | [value] => value
  | values => .coalesce values

/-- The columns of a document at a path, under their names in it. -/
def documentColumns (s : Snowflake) (path : Path) : List (String × Sql) :=
  let home := s.nestedPathOf path
  (s.columns.filter fun c => c.isValue && c.home == home && c.name.isUnder path).map fun c =>
    ((c.name.relativeTo path).typed c.type, s.stored c)

/-- The arrays directly in a document at a path. -/
def documentArrays (s : Snowflake) (path : Path) : List Path :=
  let home := s.nestedPathOf path
  s.nestedPaths.filter fun n => n != path && n.isUnder path && s.parentNestedPath n == home

/-- The documents of an array as a list, for a row of the array around it. -/
def nestedList (s : Snowflake) (nested : Path) (document : Sql) : Sql :=
  "(SELECT list(" ++ document ++ " ORDER BY " ++ s.columnOf nested orderColumn ++ ") FROM " ++
    s.table nested ++ " " ++ s.tableAlias nested ++ " WHERE " ++
    s.belongs nested (s.parentNestedPath nested) ++ ")"

/-- The document at a path, down to a number of levels of arrays. -/
def documentTo (s : Snowflake) : Nat → Path → Sql
  | 0, _ => "NULL"
  | level + 1, path =>
    .struct (s.documentColumns path ++ (s.documentArrays path).map fun nested =>
      ((nested.relativeTo path).typed .nested, s.nestedList nested (s.documentTo level nested)))

/-- The document at a path: a struct of all values there, by name and type, with the arrays in it as
    lists. No array lies deeper than there are arrays. -/
def document (s : Snowflake) (path : Path) : Sql :=
  s.documentTo (s.nested.length + 1) path

end Snowflake

namespace Scope

/-- The value of a variable. -/
def valueOf (scope : Scope) (path : Path) (type : DataType) : Sql :=
  let s := scope.snowflake
  if path == Path.root then s.document scope.path
  else if type == .nested || type == .object then s.document path
  else
    let columns := s.valueColumns path
    match columns.find? fun c => c.type == type.storage with
    | some c => s.stored c
    | none =>
      if columns.isEmpty then if s.hasDescendants path then s.document path else "NULL"
      else s.merged columns type.storage

/-- The columns that tell whether a variable has a value. -/
def witnesses (scope : Scope) (path : Path) (type : DataType) : List Column :=
  let s := scope.snowflake
  let beneath :=
    let home := s.nestedPathOf path
    s.columns.filter fun c => c.isPhysical && c.home == home && c.name.isUnder path &&
      (c.name == path || type == .object)
  if type == .nested then (s.find? path .presence).toList
  else if type.isScalar then
    match s.find? path type.storage with
    | some c => [c]
    | none => beneath
  else beneath

/-- The variable has no value. -/
def missingVar (scope : Scope) (path : Path) (type : DataType) : Sql :=
  if path == Path.root then "FALSE"
  else
    match scope.witnesses path type with
    | [] => "TRUE"
    | columns =>
      "(" ++ .join " AND " (columns.map fun c => scope.snowflake.stored c ++ " IS NULL") ++ ")"

/-- The variable has a value of a type. -/
def isTypeVar (scope : Scope) (type : DataType) (path : Path) : Sql :=
  match (scope.snowflake.valueColumns path).find? fun c => c.type == type.storage with
  | none => "FALSE"
  | some c =>
    let value := scope.snowflake.stored c
    if type == .integer then
      "(" ++ value ++ " IS NOT NULL AND " ++ value ++ " = TRUNC(" ++ value ++ "))"
    else "(" ++ value ++ " IS NOT NULL)"

/-- The value at a path in another row, counted in the order of rows. -/
def shifted (scope : Scope) (path : Path) (shift : Int) : Sql :=
  let value :=
    match scope.snowflake.valueColumns path with
    | [] => scope.valueOf path .string
    | [c] => scope.snowflake.stored c
    | columns => scope.snowflake.merged columns .string
  let window : Sql := ") OVER (ORDER BY " ++ scope.tableAlias.column uidColumn ++ ")"
  if shift == 0 then value
  else if shift > 0 then "LEAD(" ++ value ++ ", " ++ Sql.int shift ++ window
  else "LAG(" ++ value ++ ", " ++ Sql.int (-shift) ++ window

end Scope

end Snowbank
