import Snowbank.Expr.Basic

/-!
# Written Expressions

The JSON form of expressions. An operator is an object with the operator as a
key and the operands as its value; options stand beside it as further keys.
-/

namespace Snowbank.Expr

def written (op : String) (operands : Json) (options : Fields) : Json :=
  .mkObj ((op, operands) :: options)

/-- The option for the value to take instead, left out if there is none. -/
def otherOption (e : Expr) (json : Json) : Fields :=
  match e with
  | null => []
  | _ => [("default", json)]

/-- A constant. Numbers, truth values and null stand for themselves. -/
def constToJson (value : Json) : Json :=
  match value with
  | .null | .bool _ | .num _ => value
  | value => written "literal" value []

mutual

/-- The JSON form of an expression. -/
def toJson : Expr → Json
  | const value => constToJson value
  | date seconds => written "date" (.ofFloat seconds) []
  | var path _ => .str path
  | offset i => written "offset" (.nat i) []
  | script sql => written "script" (.str sql) []
  | leaves path => written "leaves" (.str path) []
  | rows path shift => written "rows" (.arr [.str path, .int shift]) []
  | unary op x => written op.name (toJson x) []
  | binary op a b => written op.name (.arr [toJson a, toJson b]) []
  | nary op terms => written op.name (.arr (listToJson terms)) []
  | when cond x y => written "when" (toJson cond) [("then", toJson x), ("else", toJson y)]
  | case clauses other => written "case" (.arr (clausesToJson clauses ++ [toJson other])) []
  | member x set => written "in" (.arr [toJson x, written "literal" (.arr set) []]) []
  | matching x pattern =>
    written "regexp" (.arr [toJson x, written "literal" (.str pattern) []]) []
  | range x bounds => written "and" (.arr (boundsToJson (toJson x) bounds)) []
  | arith op a b other =>
    written op.name (.arr [toJson a, toJson b]) (otherOption other (toJson other))
  | fold op terms nulls other =>
    written op.name (.arr (listToJson terms))
      ((if nulls then [("nulls", .bool true)] else []) ++ otherOption other (toJson other))
  | concat terms separator other =>
    written "concat" (.arr (listToJson terms))
      ((if separator.isEmpty then [] else [("separator", .str separator)]) ++
        otherOption other (toJson other))
  | find text needle start other =>
    written "find" (.arr [toJson text, toJson needle])
      (("start", toJson start) :: otherOption other (toJson other))
  | between text opening closing start other =>
    written "between" (.arr [toJson text, toJson opening, toJson closing])
      (("start", toJson start) :: otherOption other (toJson other))
  | select fields => written "select" (.arr (fieldsToJson fields)) []
  | indexOf text needle start =>
    written "basic.index_of" (.arr [toJson text, toJson needle, toJson start]) []
  | substring text start stop =>
    written "basic.substring" (.arr [toJson text, toJson start, toJson stop]) []

/-- The JSON forms of several expressions. -/
def listToJson : List Expr → List Json
  | [] => []
  | x :: xs => toJson x :: listToJson xs

/-- The JSON forms of clauses. -/
def clausesToJson : List (Expr × Expr) → List Json
  | [] => []
  | (cond, x) :: rest =>
    .mkObj [("when", toJson cond), ("then", toJson x)] :: clausesToJson rest

/-- The JSON forms of bounds on a value, as comparisons. -/
def boundsToJson (x : Json) : List (Inequality × Expr) → List Json
  | [] => []
  | (op, b) :: rest => written op.name (.arr [x, toJson b]) [] :: boundsToJson x rest

/-- The JSON forms of fields. -/
def fieldsToJson : List (String × Expr) → List Json
  | [] => []
  | (name, x) :: rest =>
    .mkObj [("name", .str name), ("value", toJson x)] :: fieldsToJson rest

end

end Snowbank.Expr
