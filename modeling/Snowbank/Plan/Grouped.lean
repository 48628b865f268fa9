import Snowbank.Plan.Basic
import Snowbank.Sql.Aggregate

/-!
# Plans for Groups

The values that a query needs are computed for every row first. Then the rows
are put into groups, or all brought together.
-/

namespace Snowbank.Plan

/-- The table of the values needed of every row. -/
def factsTable : Sql := .name "__facts"

def valueColumn (i : Nat) : String := "__v" ++ toString i

/-- The column of the values of a group key. -/
def groupColumn (i : Nat) : String := "__g" ++ toString i

/-- The value is the whole row. -/
def isWholeRow (e : Expr) : Bool :=
  match e.var? with
  | some (path, _) => path == Path.root
  | none => false

/-- The column counts rows. -/
def countsRows (c : SelectColumn) : Bool := c.aggregate == .count && isWholeRow c.value

/-- The value of a selected column, which rows to count do not have. -/
def factValue (scope : Scope) (c : SelectColumn) (i : Nat) :
    Except CompileError (List (Sql × String)) :=
  if countsRows c then .ok []
  else if isWholeRow c.value then .error (.wholeDocument c.aggregate)
  else (scope.translate c.value).map fun sql => [(sql, valueColumn i)]

/-- The values needed of every row: its number and those of the columns. -/
def factValues (scope : Scope) (select : List SelectColumn) :
    Except CompileError (List (Sql × String)) := do
  let values ← select.zipIdx.mapM fun (c, i) => factValue scope c i
  return (scope.tableAlias.column uidColumn, rowColumn) :: values.flatten

/-- The value, or what to show in its place. -/
def withDefault (c : SelectColumn) (sql : Sql) : Sql :=
  match shownDefault c with
  | some d => sql.orElse (.value d)
  | none => sql

def selectAggregate (scope : Scope) (c : SelectColumn) (i : Nat) : Except CompileError Sql := do
  let deep ← scope.isList c.value
  let sql ← c.aggregate.sql (.name (valueColumn i)) (countsRows c) deep c.percentile
  return withDefault c sql

/-- The position in the result that a sort key names. -/
def outputIndex (q : Query) (names : List String) (key : SortKey) : Option Nat :=
  match key.column with
  | some name => names.findIdx? (· == name)
  | none =>
    match q.groupby.findIdx? fun g => g.value == key.value with
    | some i => some i
    | none => q.edges.findIdx? fun e => e.value == key.value

/-- The sort terms over the columns of the result. -/
def outputOrder (q : Query) (names : List String) : Except CompileError (List Sql) := do
  let terms ← q.sort.mapM fun key =>
    match outputIndex q names key with
    | some i => .ok (sortTerm? (.name (ResultColumn.nameAt i)) key.direction)
    | none => .error .sortKey
  return terms.filterMap id

/-- A column of the answer. Without an aggregate it must be a group key. -/
def groupedSelect (q : Query) (scope : Scope) (c : SelectColumn) (i : Nat) :
    Except CompileError ResultColumn := do
  let sql ←
    if c.aggregate == .none then
      match q.groupby.findIdx? fun g => g.value == c.value with
      | some k => pure (Sql.name (groupColumn k))
      | none => throw (.ungrouped c.name)
    else selectAggregate scope c i
  return .plain sql c.name (c.aggregate.resultType c.value.dataType)

/-- The names of the columns of the result. -/
def groupedNames (q : Query) : List String :=
  q.groupby.map GroupBy.name ++ q.select.map SelectColumn.name

/-- The groups in order, at most as many as asked for. -/
def groupClause (q : Query) : Except CompileError Sql := do
  let groups := (List.range q.groupby.length).map fun i => Sql.name (groupColumn i)
  let order ← outputOrder q (groupedNames q)
  let terms := if order.isEmpty then groups.filterMap fun g => sortTerm? g 1 else order
  return " GROUP BY " ++ .join ", " groups ++ " ORDER BY " ++ .join ", " terms ++ " LIMIT " ++
    limitSql q

def grouped (q : Query) (scope : Scope) (shape : Shape) : Except CompileError Plan := do
  let values ← factValues scope q.select
  let keys ← q.groupby.zipIdx.mapM fun (g, i) =>
    (scope.translate g.value).map fun sql => (sql, groupColumn i)
  let groups := q.groupby.zipIdx.map fun (g, i) =>
    ResultColumn.plain (.name (groupColumn i)) g.name g.value.dataType
  let selects ← q.select.zipIdx.mapM fun (c, i) => groupedSelect q scope c i
  let columns := groups ++ selects
  let filter ← filterSql scope q
  let body : Sql := "WITH " ++ factsTable ++ " AS (SELECT " ++ .selectList (values ++ keys) ++
    " FROM " ++ scope.fromClause ++ " WHERE " ++ filter ++ ") SELECT " ++
    ResultColumn.selectList columns ++ " FROM " ++ factsTable
  let sql ←
    if shape == .grouped then (groupClause q).map fun clause => body ++ clause else pure body
  return ⟨sql, shape, ResultColumn.mapping columns, none⟩

end Snowbank.Plan
