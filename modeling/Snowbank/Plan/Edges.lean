import Snowbank.Plan.Grouped

/-!
# Plans for Edges

Every row gets the number of its partition on each edge. Every edge has a
table of its partitions, with one more for what is in none of them if the
edge allows that. All combinations of partitions, joined with the aggregates
of their rows, are the result, so that combinations without rows are in it
too.
-/

namespace Snowbank.Plan

/-- The table of rows with the numbers of their partitions. -/
def indexedTable : Sql := .name "__indexed"

/-- The table of the aggregates of combinations that have rows. -/
def primaryTable : Sql := .name "__primary"

/-- The column of the value of an edge. -/
def edgeColumn (k : Nat) : String := "__e" ++ toString k

/-- The column of the number of a partition. -/
def indexColumn (k : Nat) : String := "__i" ++ toString k

def partitionColumn (k : Nat) : String := "__p" ++ toString k

/-- The table of the partitions of an edge. -/
def domainTable (k : Nat) : Sql := .name ("__d" ++ toString k)

def aggregateColumn (i : Nat) : String := "__a" ++ toString i

/-- A value of a type can be equal to a partition. -/
def isPartitionOf (type : DataType) : Json → Bool
  | .num _ => type.isNumeric
  | .str _ => type == .string
  | .bool _ => type == .boolean
  | _ => false

/-- The number of the partition that a value is in. -/
def partitionIndex (edge : Edge) (value : Sql) (type : DataType) : Sql :=
  let outside (n : Nat) : Sql := if edge.allowNulls then countSql n else "NULL"
  match edge.domain with
  | .observed =>
    let rank : Sql := "(DENSE_RANK() OVER (ORDER BY " ++ value ++ " ASC NULLS LAST) - 1)"
    if edge.allowNulls then rank
    else "CASE WHEN " ++ value ++ " IS NULL THEN NULL ELSE " ++ rank ++ " END"
  | .set partitions =>
    let clauses := (partitions.zipIdx.filter fun (p, _) => isPartitionOf type p).map fun (p, i) =>
      "WHEN " ++ value ++ " = " ++ .value p ++ " THEN " ++ Sql.int i
    if clauses.isEmpty then outside partitions.length
    else "CASE " ++ .join " " clauses ++ " ELSE " ++ outside partitions.length ++ " END"
  | .intervals _ min max step =>
    "CASE WHEN " ++ value ++ " >= " ++ .float min ++ " AND " ++ value ++ " < " ++ .float max ++
      " THEN CAST(FLOOR((" ++ value ++ " - " ++ .float min ++ ") / " ++ .float step ++
      ") AS BIGINT) ELSE " ++ outside (edge.domain.intervalCount?.getD 0) ++ " END"

/-- How many partitions an edge has. -/
def partitionCount (edge : Edge) (n : Nat) : Nat := if edge.allowNulls then n + 1 else n

/-- The partitions of an edge, with their numbers. -/
def partitionRows (edge : Edge) (k : Nat) : Sql :=
  let i := Sql.name (indexColumn k)
  let p := Sql.name (partitionColumn k)
  let e := Sql.name (edgeColumn k)
  match edge.domain with
  | .observed =>
    let observed : Sql := "SELECT DISTINCT " ++ i ++ ", " ++ e ++ " AS " ++ p ++ " FROM " ++
      indexedTable ++ " WHERE " ++ e ++ " IS NOT NULL"
    if edge.allowNulls then
      observed ++ " UNION ALL SELECT (SELECT COUNT(DISTINCT " ++ e ++ ") FROM " ++ factsTable ++
        ") AS " ++ i ++ ", NULL AS " ++ p
    else observed
  | .set partitions =>
    "SELECT range AS " ++ i ++ ", NULL AS " ++ p ++ " FROM range(0, " ++
      countSql (partitionCount edge partitions.length) ++ ")"
  | .intervals _ min _ step =>
    let count := edge.domain.intervalCount?.getD 0
    "SELECT range AS " ++ i ++ ", CASE WHEN range < " ++ countSql count ++ " THEN " ++ .float min ++
      " + range * " ++ .float step ++ " END AS " ++ p ++ " FROM range(0, " ++
      countSql (partitionCount edge count) ++ ")"

/-- The columns of an edge: the number of the partition and the partition. -/
def edgeColumns (edge : Edge) (k : Nat) : List ResultColumn :=
  [⟨(domainTable k).column (indexColumn k), edge.name, "index", .integer, true⟩,
    ⟨(domainTable k).column (partitionColumn k), edge.name, Path.root, edge.value.dataType, true⟩]

/-- The column of an aggregate. -/
def edgeSelect (c : SelectColumn) (i : Nat) : ResultColumn :=
  .plain (withDefault c (primaryTable.column (aggregateColumn i))) c.name
    (c.aggregate.resultType c.value.dataType)

/-- The order of combinations: the first edge varies fastest. -/
def edgeOrder (q : Query) : Except CompileError (List Sql) := do
  let natural := (List.range q.edges.length).reverse.map fun k =>
    (domainTable k).column (indexColumn k) ++ " ASC NULLS LAST"
  if !q.sort.isEmpty && q.format != .cube then
    return (← outputOrder q (q.select.map SelectColumn.name)) ++ natural
  else return natural

def edges (q : Query) (scope : Scope) : Except CompileError Plan := do
  let edges := q.edges.zipIdx
  let values ← factValues scope q.select
  let keys ← edges.mapM fun (e, k) =>
    (scope.translate e.value).map fun sql => (sql, edgeColumn k)
  let filter ← filterSql scope q
  let facts : Sql := factsTable ++ " AS (SELECT " ++ .selectList (values ++ keys) ++ " FROM " ++
    scope.fromClause ++ " WHERE " ++ filter ++ ")"
  let indexes := edges.map fun (e, k) =>
    (partitionIndex e (.name (edgeColumn k)) e.value.dataType, indexColumn k)
  let indexed : Sql := indexedTable ++ " AS (SELECT *, " ++ .selectList indexes ++ " FROM " ++
    factsTable ++ ")"
  let domains := edges.map fun (e, k) => domainTable k ++ " AS (" ++ partitionRows e k ++ ")"
  let aggregates ← q.select.zipIdx.mapM fun (c, i) =>
    (selectAggregate scope c i).map fun sql => (sql, aggregateColumn i)
  let groups := Sql.join ", " (edges.map fun (_, k) => Sql.name (indexColumn k))
  let primaryList := if aggregates.isEmpty then groups else groups ++ ", " ++ .selectList aggregates
  let primary : Sql := primaryTable ++ " AS (SELECT " ++ primaryList ++ " FROM " ++ indexedTable ++
    " GROUP BY " ++ groups ++ ")"
  let columns := edges.flatMap (fun (e, k) => edgeColumns e k) ++
    q.select.zipIdx.map fun (c, i) => edgeSelect c i
  let cells := Sql.join " CROSS JOIN " (edges.map fun (_, k) => domainTable k)
  let ties := edges.map fun (_, k) =>
    primaryTable.column (indexColumn k) ++ " IS NOT DISTINCT FROM " ++
      (domainTable k).column (indexColumn k)
  let order ← edgeOrder q
  let body : Sql := "WITH " ++ facts ++ ", " ++ indexed ++ ", " ++ .join ", " domains ++ ", " ++
    primary ++ " SELECT " ++ ResultColumn.selectList columns ++ " FROM " ++ cells ++
    " LEFT JOIN " ++ primaryTable ++ " ON " ++ .join " AND " ties ++ " ORDER BY " ++
    .join ", " order
  let sql := if q.format == .cube then body else body ++ " LIMIT " ++ limitSql q
  return ⟨sql, .edges, ResultColumn.mapping columns, none⟩

end Snowbank.Plan
