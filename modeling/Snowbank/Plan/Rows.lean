import Snowbank.Plan.Basic
import Snowbank.Sql.Aggregate

/-!
# Plans for Rows

A row of the result for every row of the query, with windows over the rows
around it.

A field that is stored under several types has a column for each. At most one
of them has a value in a row, and so the type of the value is kept.
-/

namespace Snowbank.Plan

/-- A value of a field that is stored under the given types. -/
def storedValue (path : Path) (types : List DataType) : Expr :=
  match types with
  | [type] => .var path type
  | types =>
    if types.all DataType.isScalar then .coalesce (types.map (Expr.var path))
    else
      let merged := types.foldl DataType.merge (types.head?.getD .null)
      .var path (if merged == .null then .string else merged)

/-- The values beneath a path that are not in an array further down, each with
    its path from there. The root stands for the rows of the query. -/
def leavesOf (scope : Scope) (path : Path) : List (Path × Expr) :=
  let s := scope.snowflake
  let base := if path == Path.root then scope.path else path
  let home := s.nestedPathOf base
  let columns := s.columns.filter fun c =>
    c.isValue && c.home == home && c.name.isUnder base && c.name != base
  (Ordered.elems (columns.map Column.name)).map fun name =>
    let types := Ordered.elems ((columns.filter fun c => c.name == name).map Column.type)
    (name.relativeTo base, storedValue name types)

def project (scope : Scope) (name : String) (value : Expr) (default : Option Json) :
    Except CompileError (List ResultColumn) :=
  match value.alternatives? with
  | none => do
    let sql ← scope.translate value
    let sql :=
      match default with
      | some d => sql.orElse (.value d)
      | none => sql
    return [.plain sql name value.dataType]
  | some terms => do
    let columns ← terms.mapM fun term =>
      (scope.translate term).map fun sql => ResultColumn.plain sql name term.dataType
    match default with
    | none => return columns
    | some d =>
      let test ← scope.translate value.missing
      return columns ++
        [.plain ("CASE WHEN " ++ test ++ " THEN " ++ .value d ++ " END") name (.ofJson d)]

/-- The columns of a selected value. -/
def selected (scope : Scope) (c : SelectColumn) : Except CompileError (List ResultColumn) :=
  match c.value with
  | .leaves path => do
    let columns ← (leavesOf scope path).mapM fun (name, value) => project scope name value none
    return columns.flatten
  | value =>
    if c.name == wholeDocument then
      .ok [.plain (scope.snowflake.document scope.path) Path.root .object]
    else project scope c.name value (shownDefault c)

/-- One end of the rows of a window. -/
def frameBound (offset : Option Int) (open_ : String) : Sql :=
  match offset with
  | none => "UNBOUNDED " ++ open_
  | some n =>
    if n == 0 then "CURRENT ROW"
    else if n < 0 then Sql.int (-n) ++ " PRECEDING"
    else Sql.int n ++ " FOLLOWING"

/-- The partitions and the order of a window. -/
def overSql (scope : Scope) (w : Window) : Except CompileError Sql := do
  let edges ← w.edges.mapM scope.translate
  let keys ← sortTerms scope w.sort
  let order :=
    if keys.isEmpty then (sortTerm? (scope.tableAlias.column uidColumn) 1).toList else keys
  let orderSql : Sql := "ORDER BY " ++ .join ", " order
  if edges.isEmpty then return orderSql
  else return "PARTITION BY " ++ .join ", " edges ++ " " ++ orderSql

def windowSql (scope : Scope) (w : Window) : Except CompileError Sql := do
  let window ← overSql scope w
  match w.value with
  | none => return "(ROW_NUMBER() OVER (" ++ window ++ ") - 1)"
  | some value =>
    let sql ← scope.translate value
    if w.aggregate == .none && w.range.isNone then return sql
    else
      let (first, last) := w.range.getD (none, none)
      let function ← w.aggregate.windowSql sql
      return function ++ " OVER (" ++ window ++ " ROWS BETWEEN " ++ frameBound first "PRECEDING" ++
        " AND " ++ frameBound last "FOLLOWING" ++ ")"

def windowColumn (scope : Scope) (w : Window) : Except CompileError ResultColumn :=
  (windowSql scope w).map fun sql => .plain sql w.name
    (match w.value with
      | some value => w.aggregate.resultType value.dataType
      | none => .integer)

def rows (q : Query) (scope : Scope) : Except CompileError Plan := do
  let selects ← q.select.mapM (selected scope)
  let windows ← q.window.mapM (windowColumn scope)
  let columns := selects.flatten ++ windows
  let filter ← filterSql scope q
  let order ← sortTerms scope q.sort
  let body : Sql := "SELECT " ++ ResultColumn.selectList columns ++ " FROM " ++ scope.fromClause ++
    " WHERE " ++ filter
  let sorted := if order.isEmpty then body else body ++ " ORDER BY " ++ .join ", " order
  return ⟨sorted ++ " LIMIT " ++ limitSql q, .setop, ResultColumn.mapping columns, none⟩

end Snowbank.Plan
