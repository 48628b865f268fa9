/-!
# Aggregates

How the values of many rows are brought together into one.
-/

namespace Snowbank

/-- A way to bring many values together, or not to. -/
inductive Aggregate where
  | none
  | count
  | sum
  | min
  | max
  | avg
  | median
  | first
  | last
  | cardinality
  | union
  | percentile
  | stats
  deriving DecidableEq, Repr

namespace Aggregate

def name : Aggregate → String
  | none => "none"
  | count => "count"
  | sum => "sum"
  | min => "min"
  | max => "max"
  | avg => "avg"
  | median => "median"
  | first => "first"
  | last => "last"
  | cardinality => "cardinality"
  | union => "union"
  | percentile => "percentile"
  | stats => "stats"

/-- The aggregate with a name; some have several. -/
def ofName? : String → Option Aggregate
  | "none" => some none
  | "count" => some count
  | "sum" | "add" => some sum
  | "min" | "minimum" => some min
  | "max" | "maximum" => some max
  | "avg" | "average" | "mean" => some avg
  | "median" => some median
  | "first" => some first
  | "last" => some last
  | "cardinality" => some cardinality
  | "union" => some union
  | "percentile" => some percentile
  | "stats" => some stats
  | _ => Option.none

/-- The aggregate is of numbers only. -/
def isNumeric : Aggregate → Bool
  | sum | avg | median | percentile | stats => true
  | _ => false

end Aggregate

end Snowbank
