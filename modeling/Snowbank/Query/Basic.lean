import Snowbank.Expr.Printer
import Snowbank.Query.Aggregate

/-!
# Queries

A query in full: every shorthand spelled out, every path starting at the root
of the documents, every expression in simple form.
-/

namespace Snowbank

/-- A column of the answer. -/
structure SelectColumn where
  name : String
  value : Expr
  aggregate : Aggregate
  /-- What stands for an aggregate without a value. -/
  default : Option Json
  /-- Which share of the values lies below a percentile. -/
  percentile : Option Float

/-- What the numbers of an interval domain measure. -/
inductive IntervalKind where
  | range
  | time
  | duration
  deriving DecidableEq, Repr

/-- The name of an interval domain. -/
def IntervalKind.name : IntervalKind → String
  | .range => "range"
  | .time => "time"
  | .duration => "duration"

/-- How the values of an edge are put into partitions. -/
inductive Domain where
  /-- A partition for every value there is. -/
  | observed
  /-- A partition for every value listed. -/
  | set (partitions : List Json)
  /-- Partitions of one length, each with its lower and without its upper bound. -/
  | intervals (kind : IntervalKind) (min max step : Float)

namespace Domain

def name : Domain → String
  | observed => "default"
  | set _ => "set"
  | intervals kind _ _ _ => kind.name

/-- How many intervals there are between the bounds. -/
def intervalCount? : Domain → Option Nat
  | intervals _ min max step => some (ceilCount ((max - min) / step))
  | _ => none

/-- The JSON form of a domain. -/
def toJson (d : Domain) : Json :=
  .mkObj (("type", .str d.name) ::
    match d with
    | observed => []
    | set partitions => [("partitions", .arr partitions)]
    | intervals _ min max step =>
      [("min", .float min), ("max", .float max), ("interval", .float step)])

end Domain

/-- A dimension of the answer. -/
structure Edge where
  name : String
  value : Expr
  domain : Domain
  /-- There is also a partition for what is in no other. -/
  allowNulls : Bool

/-- An expression whose values put rows into groups. -/
structure GroupBy where
  name : String
  value : Expr

/-- An expression to sort by. -/
structure SortKey where
  value : Expr
  /-- One upwards, minus one downwards, zero for no order. -/
  direction : Int
  /-- The column of the answer that the key names. -/
  column : Option String

/-- A column computed over the rows around each row. -/
structure Window where
  name : String
  /-- The value to bring together; none for the number of the row. -/
  value : Option Expr
  aggregate : Aggregate
  edges : List Expr
  sort : List SortKey
  /-- First and last row, counted from the current one. -/
  range : Option (Option Int × Option Int)

/-- The shape of the answer. -/
inductive Format where
  | list
  | table
  | cube
  deriving DecidableEq, Repr

def Format.name : Format → String
  | .list => "list"
  | .table => "table"
  | .cube => "cube"

/-- A query. -/
structure Query where
  /-- The collection, or an array of documents in it, as written. -/
  source : String
  fact : String
  /-- The array of documents whose items are the rows. -/
  queryPath : Path
  select : List SelectColumn
  /-- A column stood alone, not in a list. -/
  selectSingle : Bool
  filter : Expr
  edges : List Edge
  groupby : List GroupBy
  sort : List SortKey
  window : List Window
  limit : Nat
  format : Format
  /-- The digest of the query as written. -/
  fingerprint : String

/-- The name of the column that holds whole documents. -/
def wholeDocument : String := "__all__"

/-- A field that is left out when there is nothing to say. -/
def Json.optField (key : String) : Option Json → Fields
  | some value => [(key, value)]
  | none => []

/-- The JSON form of a column. -/
def SelectColumn.toJson (c : SelectColumn) : Json :=
  .mkObj ([("name", .str c.name), ("value", c.value.toJson),
      ("aggregate", .str c.aggregate.name)] ++
    Json.optField "default" c.default ++
    Json.optField "percentile" (c.percentile.map Json.float))

/-- The JSON form of an edge. -/
def Edge.toJson (e : Edge) : Json :=
  .mkObj [("name", .str e.name), ("value", e.value.toJson), ("domain", e.domain.toJson),
    ("allowNulls", .bool e.allowNulls)]

/-- The JSON form of a group key. -/
def GroupBy.toJson (g : GroupBy) : Json :=
  .mkObj [("name", .str g.name), ("value", g.value.toJson)]

def SortKey.toJson (k : SortKey) : Json :=
  .mkObj ([("value", k.value.toJson), ("direction", .int k.direction)] ++
    Json.optField "column" (k.column.map Json.str))

/-- An integer or null. -/
def Json.optInt : Option Int → Json
  | some n => .int n
  | none => .null

/-- The JSON form of a window. -/
def Window.toJson (w : Window) : Json :=
  .mkObj [("name", .str w.name), ("value", (w.value.map Expr.toJson).getD .null),
    ("aggregate", .str w.aggregate.name), ("edges", .arr (w.edges.map Expr.toJson)),
    ("sort", .arr (w.sort.map SortKey.toJson)),
    ("range", match w.range with
      | some (first, last) => .arr [.optInt first, .optInt last]
      | none => .null)]

namespace Query

/-- Some column brings rows together. -/
def isAggregate (q : Query) : Bool :=
  q.select.any fun c => c.aggregate != .none

/-- The JSON form of a query. -/
def toJson (q : Query) : Json :=
  .mkObj [("from", .str q.source), ("fact", .str q.fact), ("query_path", .str q.queryPath),
    ("select", .arr (q.select.map SelectColumn.toJson)),
    ("select_single", .bool q.selectSingle), ("where", q.filter.toJson),
    ("edges", .arr (q.edges.map Edge.toJson)), ("groupby", .arr (q.groupby.map GroupBy.toJson)),
    ("sort", .arr (q.sort.map SortKey.toJson)), ("window", .arr (q.window.map Window.toJson)),
    ("limit", .nat q.limit), ("format", .str q.format.name), ("fingerprint", .str q.fingerprint)]

end Query

end Snowbank
