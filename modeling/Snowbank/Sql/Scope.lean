import Snowbank.Snowflake.Shred
import Snowbank.Sql.Basic
import Snowbank.Sql.Error

/-!
# Scopes

A scope is the place from which an expression is read: an array of documents
whose rows are at hand, together with the rows around them. What lies there
is a plain column. What lies in an array further down has many values, and is
reached by a query of its own.
-/

namespace Snowbank

/-- The array of documents from whose rows an expression is read. -/
structure Scope where
  snowflake : Snowflake
  path : Path

namespace Snowflake

/-- The alias of the table of an array; there is one for every depth. -/
def tableAlias (s : Snowflake) (nestedPath : Path) : Sql :=
  .name ("__t" ++ toString ((s.nestedPathList nestedPath).length - 1))

/-- The table of an array. -/
def table (s : Snowflake) (nestedPath : Path) : Sql :=
  .name (s.tableName nestedPath)

/-- A column of the rows of an array. -/
def columnOf (s : Snowflake) (nestedPath : Path) (column : String) : Sql :=
  (s.tableAlias nestedPath).column column

/-- The rows of an array belong to the rows of another one around it. -/
def belongs (s : Snowflake) (child parent : Path) : Sql :=
  s.columnOf child parentColumn ++ " = " ++ s.columnOf parent uidColumn

/-- Join the rows of an array to those of the array around it. -/
def joinChild (s : Snowflake) (tables : Sql) (parent child : Path) : Sql :=
  tables ++ " JOIN " ++ s.table child ++ " " ++ s.tableAlias child ++ " ON " ++
    s.belongs child parent

/-- Join the rows of arrays, each inside the one before. -/
def joinChain (s : Snowflake) (tables : Sql) (parent : Path) : List Path → Sql
  | [] => tables
  | child :: rest => s.joinChain (s.joinChild tables parent child) child rest

end Snowflake

namespace Scope

/-- The alias of the rows of the scope. -/
def tableAlias (scope : Scope) : Sql := scope.snowflake.tableAlias scope.path

/-- The rows of the scope, joined to the rows around them. -/
def fromClause (scope : Scope) : Sql :=
  let s := scope.snowflake
  let first := s.table Path.root ++ " " ++ s.tableAlias Path.root
  match (s.nestedPathList scope.path).reverse with
  | [] => first
  | root :: rest => s.joinChain first root rest

/-- The arrays beneath the scope on the way to one of them, outer ones first. -/
def chainTo (scope : Scope) (deep : Path) : List Path :=
  ((scope.snowflake.nestedPathList deep).filter fun n =>
    n != scope.path && n.isUnder scope.path).reverse

/-- The tables from the scope down to an array beneath it, what ties them to a
    row of the scope, and the columns that order their rows. -/
def correlatedFrom (scope : Scope) (deep : Path) : Sql × Sql × List Sql :=
  let s := scope.snowflake
  let chain := scope.chainTo deep
  let orders := chain.map fun n => s.columnOf n orderColumn
  match chain with
  | [] => (.empty, "TRUE", orders)
  | first :: rest =>
    (s.joinChain (s.table first ++ " " ++ s.tableAlias first) first rest,
      s.belongs first scope.path, orders)

/-- The array that a node reads from. Whether an array is missing is known outside it. -/
def homeOf (s : Snowflake) : Expr → Option (List Path)
  | .unary .missing (.var path .nested) => some [s.parentNestedPath path]
  | .var path _ | .leaves path | .rows path _ =>
    some (if path == Path.root then [] else [s.nestedPathOf path])
  | _ => none

/-- The arrays that an expression reads from. -/
def homes (s : Snowflake) (e : Expr) : List Path :=
  e.collect (homeOf s)

/-- The deeper of two arrays beneath the scope, one of which must contain the other. -/
def deeper (a b : Path) : Except CompileError Path :=
  if b.isUnder a then .ok b
  else if a.isUnder b then .ok a
  else .error (.crossBranch a b)

/-- The deepest array beneath the scope, given the deepest so far. -/
def deepestFrom (scope : Scope) : Option Path → List Path → Except CompileError (Option Path)
  | deepest, [] => .ok deepest
  | deepest, home :: rest =>
    if home == scope.path || !home.isUnder scope.path then
      if scope.path.isUnder home then scope.deepestFrom deepest rest
      else .error (.crossBranch home scope.path)
    else
      match deepest with
      | none => scope.deepestFrom (some home) rest
      | some d => do scope.deepestFrom (some (← deeper d home)) rest

/-- The deepest array beneath the scope that an expression reads from. -/
def deepPath (scope : Scope) (e : Expr) : Except CompileError (Option Path) :=
  scope.deepestFrom none (homes scope.snowflake e)

/-- The expression has a list of values for a row. -/
def isList (scope : Scope) (e : Expr) : Except CompileError Bool :=
  if e.dataType == .boolean then .ok false else (scope.deepPath e).map Option.isSome

end Scope

end Snowbank
