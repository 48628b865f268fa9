import Snowbank.Sql.Columns

/-!
# Aggregates in SQL

Values of single rows are brought together by the aggregates of SQL. Values
from an array beneath come as a list for each row, so the lists are joined
first and brought together as one.
-/

namespace Snowbank

/-- The column that holds the number of the row that a value belongs to. -/
def rowColumn : String := "__exists__"

namespace Aggregate

/-- All items of a list column, in the order of rows. -/
def flattened (x : Sql) : Sql :=
  "flatten(list(" ++ x ++ " ORDER BY " ++ .name rowColumn ++ ") FILTER (WHERE " ++ x ++
    " IS NOT NULL))"

/-- A function of a value. -/
def call (function : String) (x : Sql) : Sql := function ++ "(" ++ x ++ ")"

/-- The first or last value that is not null, in the order of rows. -/
def edgeValue (function : String) (x : Sql) : Sql :=
  function ++ "(" ++ x ++ " ORDER BY " ++ .name rowColumn ++ ") FILTER (WHERE " ++ x ++
    " IS NOT NULL)"

/-- A share of a percentile, by default a half. -/
def share (percentile : Option Float) : Sql := .float (percentile.getD 0.5)

/-- An aggregate of the items of one list. -/
def overList (aggregate : Aggregate) (xs : Sql) (percentile : Option Float) : Sql :=
  match aggregate with
  | none => xs
  | count => "COALESCE(len(" ++ xs ++ "), 0)"
  | sum => call "list_sum" xs
  | min => call "list_min" xs
  | max => call "list_max" xs
  | avg => call "list_avg" xs
  | median => call "list_median" xs
  | first => xs ++ "[1]"
  | last => xs ++ "[-1]"
  | cardinality => "COALESCE(len(list_distinct(" ++ xs ++ ")), 0)"
  | union => "list_sort(list_distinct(" ++ xs ++ "))"
  | .percentile => "list_aggregate(" ++ xs ++ ", 'quantile_cont', " ++ share percentile ++ ")"
  | stats =>
    "struct_pack(count := COALESCE(len(" ++ xs ++ "), 0), std := list_aggregate(" ++ xs ++
      ", 'stddev_pop'), min := list_min(" ++ xs ++ "), max := list_max(" ++ xs ++
      "), sum := list_sum(" ++ xs ++ "), median := list_median(" ++ xs ++
      "), sos := list_inner_product(" ++ xs ++ ", " ++ xs ++ "), var := list_aggregate(" ++ xs ++
      ", 'var_pop'), avg := list_avg(" ++ xs ++ "))"

/-- An aggregate of a column of single values. -/
def overRows (aggregate : Aggregate) (x : Sql) (percentile : Option Float) :
    Except CompileError Sql :=
  match aggregate with
  | none => .error .noAggregate
  | count => .ok (call "COUNT" x)
  | sum => .ok (call "SUM" x)
  | min => .ok (call "MIN" x)
  | max => .ok (call "MAX" x)
  | avg => .ok (call "AVG" x)
  | median => .ok (call "MEDIAN" x)
  | first => .ok (edgeValue "FIRST" x)
  | last => .ok (edgeValue "LAST" x)
  | cardinality => .ok ("COUNT(DISTINCT " ++ x ++ ")")
  | union => .ok ("list_sort(list(DISTINCT " ++ x ++ ") FILTER (WHERE " ++ x ++ " IS NOT NULL))")
  | .percentile => .ok ("quantile_cont(" ++ x ++ ", " ++ share percentile ++ ")")
  | stats =>
    .ok ("struct_pack(count := COUNT(" ++ x ++ "), std := stddev_pop(" ++ x ++
      "), min := MIN(" ++ x ++ "), max := MAX(" ++ x ++ "), sum := SUM(" ++ x ++
      "), median := MEDIAN(" ++ x ++ "), sos := SUM(" ++ x ++ " * " ++ x ++
      "), var := var_pop(" ++ x ++ "), avg := AVG(" ++ x ++ "))")

/-- An aggregate of a column. With `rows` it is of whole rows, with `deep` the
    column holds lists. -/
def sql (aggregate : Aggregate) (x : Sql) (rows deep : Bool) (percentile : Option Float) :
    Except CompileError Sql :=
  if aggregate == count && rows then .ok ("COUNT(DISTINCT " ++ .name rowColumn ++ ")")
  else if deep then .ok (aggregate.overList (flattened x) percentile)
  else aggregate.overRows x percentile

/-- The type of the value of an aggregate. -/
def resultType (aggregate : Aggregate) (input : DataType) : DataType :=
  match aggregate with
  | count | cardinality => .integer
  | sum | avg | median | .percentile => .number
  | union | stats => .object
  | none | min | max | first | last => input

/-- An aggregate over the rows of a window. -/
def windowSql (aggregate : Aggregate) (x : Sql) : Except CompileError Sql :=
  match aggregate with
  | none | last => .ok (call "LAST_VALUE" x)
  | first => .ok (call "FIRST_VALUE" x)
  | count => .ok (call "COUNT" x)
  | sum => .ok (call "SUM" x)
  | min => .ok (call "MIN" x)
  | max => .ok (call "MAX" x)
  | avg => .ok (call "AVG" x)
  | median => .ok (call "MEDIAN" x)
  | .percentile => .ok ("quantile_cont(" ++ x ++ ", " ++ share Option.none ++ ")")
  | other => .error (.windowAggregate other)

end Aggregate

end Snowbank
