import Snowbank.Query.Basic
import Snowbank.Query.Error

/-!
# Errors of Compilation and Assembly

Why a query cannot be turned into SQL, or the rows of its result into an
answer.
-/

namespace Snowbank

/-- Why a query has no SQL or its result no answer. -/
inductive CompileError where
  | query (error : QueryError)
  /-- Values from two arrays of which neither contains the other. -/
  | crossBranch (a b : Path)
  | looseOffset (index : Nat)
  | between
  | windowShape
  | wholeDocument (aggregate : Aggregate)
  | ungrouped (name : String)
  | sortKey
  | noAggregate
  | windowAggregate (aggregate : Aggregate)
  | cubeWithoutEdges
  | rowWidth (expected actual : Nat)
  | noLayout
  | noEdgeColumn (name : String)
  | cubeSize (sizes : List Nat) (cells rows : Nat)
  | badTable (index : Json)
  | noParent (path : Path) (parent : Json)

namespace CompileError

def kind : CompileError → ErrorKind
  | query e => e.kind
  | crossBranch _ _ => .depth
  | rowWidth _ _ | noLayout | noEdgeColumn _ | cubeSize _ _ _ | badTable _ | noParent _ _ =>
    .execute
  | _ => .parse

/-- What is wrong, without the kind. -/
def detail : CompileError → String
  | query e => e.message
  | crossBranch a b => a ++ " and " ++ b ++ " are in different branches of the snowflake"
  | looseOffset i => "offset " ++ toString i ++ " outside a tuple"
  | between => "between"
  | windowShape => "window with groupby, edges or aggregates"
  | wholeDocument aggregate => aggregate.name ++ " of the whole document"
  | ungrouped name => Text.quoted name ++ " is neither aggregated nor grouped"
  | sortKey => "sort on a value that is not an output"
  | noAggregate => "value without aggregate in an aggregate query"
  | windowAggregate aggregate => aggregate.name ++ " aggregate in a window"
  | cubeWithoutEdges => "cube format without edges"
  | rowWidth expected actual =>
    "expected " ++ toString expected ++ " columns, got " ++ toString actual
  | noLayout => "document layout missing"
  | noEdgeColumn name => "no column for edge " ++ Text.quoted name
  | cubeSize sizes cells rows =>
    "cube of [" ++ ", ".intercalate (sizes.map toString) ++ "] needs " ++ toString cells ++
      " rows, got " ++ toString rows
  | badTable index => "bad table index " ++ index.toText
  | noParent path parent => "row of " ++ path ++ " has no parent " ++ parent.toText

def message (e : CompileError) : String :=
  match e with
  | query _ | crossBranch _ _ => e.detail
  | e =>
    match e.kind with
    | .execute => "Result assembly failed: " ++ e.detail
    | _ => "Unsupported: " ++ e.detail

end CompileError

end Snowbank
