import Snowbank.Store.Backend
import Snowbank.Store.Catalog

/-!
# Loading the Catalog

When a store is opened, the snowflakes of its facts are built again from the
records of their columns. A table that no record mentions is a fact without
columns.
-/

namespace Snowbank

/-- A key that orders all numbers, with a negative zero before zero. -/
def orderKey (x : Float) : Int :=
  let bits := x.toBits.toNat
  if bits < 0x8000000000000000 then bits else 0x7FFFFFFFFFFFFFFF - (bits : Int)

namespace Catalog

variable {σ : Type}

/-- The column of a row of the catalog's table. -/
def columnOf (row : List Json) : Except ExecutionError Column :=
  (Column.ofRecord (.mkObj (Statement.catalogFields.zip row))).mapError .schema

/-- Columns by fact, in the order in which they changed. -/
def byFact (columns : List Column) : List (String × List Column) :=
  let groups := columns.foldl (fun all c => Ordered.update c.fact [] (· ++ [c]) all) []
  groups.map fun (fact, cs) =>
    (fact, Ordered.sortBy (fun a b => orderKey a.lastUpdated ≤ orderKey b.lastUpdated) cs)

def fetchRows (b : Backend σ) (s : Statement) : StoreM σ Rows := ExceptT.mk (b.fetch s)

/-- The greatest numbers of the rows of tables. -/
def maxUids (b : Backend σ) : List String → StoreM σ (List (String × Int))
  | [] => pure []
  | table :: rest => do
    let rows ← fetchRows b (.selectMaxUid table)
    let others ← maxUids b rest
    match ((rows.head?.bind List.head?).bind Json.int64?) with
    | some n => return (table, n) :: others
    | none => return others

/-- The snowflakes of facts. -/
def snowflakes (b : Backend σ) : List (String × List Column) → StoreM σ (List (String × Snowflake))
  | [] => pure []
  | (fact, columns) :: rest => do
    let shape := Snowflake.ofColumns fact columns []
    let uids ← maxUids b shape.tables
    let others ← snowflakes b rest
    return (fact, Snowflake.ofColumns fact shape.columns uids) :: others

/-- Take a table as a fact, unless it belongs to one. -/
def addTable (facts : List (String × Snowflake)) (table : String) : List (String × Snowflake) :=
  if facts.any fun (_, s) => (s.nestedPathOfTable? table).isSome then facts
  else Ordered.insert table (Snowflake.empty table) facts

def load (b : Backend σ) : StoreM σ Catalog := do
  ExceptT.mk (b.command Statement.createCatalog.sql)
  let rows ← fetchRows b .selectCatalog
  let columns ← ExceptT.mk fun store => (rows.mapM columnOf, store)
  let known ← snowflakes b (byFact columns)
  let tables ← fetchRows b .selectTables
  let names := tables.filterMap fun row => row.head?.bind Json.str?
  return ⟨names.foldl addTable (Ordered.ofList known), []⟩

end Catalog

end Snowbank
