import Snowbank.Expr.Simplify
import Snowbank.Sql.Columns

/-!
# Expressions in SQL

The SQL of an expression, seen from a scope.

An expression is first put into the scope that it needs: if it reads from
arrays beneath the scope, it is translated for the rows of the deepest of
them and collected from there. A test holds if it holds for one of these
rows, except that a value is missing only if it is missing from all; other
values are collected into a list. Connectives are never moved, their terms
are.
-/

namespace Snowbank

namespace Sql

/-- A term in parentheses. -/
def parens (sql : Sql) : Sql := "(" ++ sql ++ ")"

def negation (sql : Sql) : Sql := "(NOT " ++ sql ++ ")"

/-- A conjunction or disjunction of terms. -/
def connective (operator other : String) (terms : List Sql) : Sql :=
  if terms.isEmpty then other else parens (join operator terms)

/-- A comparison that is false where it has no value. -/
def comparison (op : Inequality) (a b : Sql) : Sql :=
  "COALESCE(" ++ a ++ " " ++ op.sign ++ " " ++ b ++ ", FALSE)"

/-- A position in a text, not below zero. -/
def position (value : Sql) : Sql := "GREATEST(CAST(" ++ value ++ " AS BIGINT), 0)"

def allNull (values : List Sql) : Sql := join " AND " (values.map fun v => v ++ " IS NULL")

/-- The value, or another one where it is null. -/
def orElse (value other : Sql) : Sql := "COALESCE(" ++ value ++ ", " ++ other ++ ")"

/-- The constant can be a value of the type. -/
def comparable (type : DataType) : Json → Bool
  | .null => false
  | .num _ => type.isNumeric || !type.isScalar
  | .str _ => type == .string || !type.isScalar
  | .bool _ => type == .boolean || !type.isScalar
  | _ => !type.isScalar

/-- Arithmetic on two numbers. -/
def arith (op : Arith) (a b : Sql) : Sql :=
  match op with
  | .sub => "(" ++ a ++ " - " ++ b ++ ")"
  | .div => "(" ++ a ++ " / NULLIF(" ++ b ++ ", 0))"
  | .mod => "(" ++ a ++ " % NULLIF(" ++ b ++ ", 0))"
  | .exp => "POWER(" ++ a ++ ", " ++ b ++ ")"
  | .floor => "(FLOOR(" ++ a ++ " / NULLIF(" ++ b ++ ", 0)) * " ++ b ++ ")"

/-- The operator between terms. -/
def foldSign : Fold → String
  | .add => " + "
  | .mul => " * "

/-- A sum or a product. Without terms there is only the other value. -/
def fold (op : Fold) (terms : List Sql) (nulls hasOther : Bool) (other : Sql) : Sql :=
  if terms.isEmpty then other
  else if nulls then
    let padded := terms.map fun t => orElse t (float op.identity)
    "CASE WHEN " ++ allNull terms ++ " THEN " ++ other ++ " ELSE (" ++
      join (foldSign op) padded ++ ") END"
  else
    let total := parens (join (foldSign op) terms)
    if hasOther then orElse total other else total

/-- The same list from every position on, and round to that position. -/
def rotations (terms : List Sql) : List (List Sql) :=
  (List.range terms.length).map fun i => terms.drop i ++ terms.take i

/-- The least or greatest of the terms that are not null: each argument is the
    first of them from one position on. -/
def extreme (function : String) (terms : List Sql) : Sql :=
  match terms with
  | [] => "NULL"
  | [t] => t
  | terms => function ++ "(" ++ join ", " ((rotations terms).map coalesce) ++ ")"

/-- An end of a text, or the text without it. -/
def side (op : Side) (text count : Sql) : Sql :=
  match op with
  | .left => "left(" ++ text ++ ", " ++ count ++ ")"
  | .right => "right(" ++ text ++ ", " ++ count ++ ")"
  | .notLeft => "substr(" ++ text ++ ", " ++ count ++ " + 1)"
  | .notRight => "left(" ++ text ++ ", GREATEST(LENGTH(" ++ text ++ ") - " ++ count ++ ", 0))"

/-- The position of a text in another one, or -1. -/
def indexOf (text needle start : Sql) : Sql :=
  let found := "strpos(substr(" ++ text ++ ", " ++ start ++ " + 1), " ++ needle ++ ")"
  "CASE WHEN " ++ found ++ " = 0 THEN -1 ELSE " ++ found ++ " + " ++ start ++ " - 1 END"

/-- A test with a text that does not restrict where it is null. -/
def affix (function : String) (text part : Sql) : Sql :=
  "COALESCE(" ++ function ++ "(" ++ text ++ ", " ++ part ++ "), " ++ part ++ " IS NULL)"

/-- Texts joined by a separator, or the other value if there are none. -/
def concat (terms : List Sql) (separator : String) (other : Sql) : Sql :=
  if terms.isEmpty then other
  else
    "CASE WHEN " ++ allNull terms ++ " THEN " ++ other ++ " ELSE concat_ws(" ++ text separator ++
      ", " ++ join ", " terms ++ ") END"

end Sql

namespace Scope

/-- Collect an expression from the rows of an array beneath the scope. -/
def collected (scope : Scope) (deep : Path) (e : Expr) (inner : Sql) : Sql :=
  let (tables, tie, orders) := scope.correlatedFrom deep
  match e with
  | .unary .missing _ =>
    "(NOT EXISTS (SELECT 1 FROM " ++ tables ++ " WHERE " ++ tie ++ " AND NOT " ++ inner ++ "))"
  | e =>
    if e.dataType == .boolean then
      "EXISTS (SELECT 1 FROM " ++ tables ++ " WHERE " ++ tie ++ " AND " ++ inner ++ ")"
    else
      "(SELECT list(" ++ inner ++ " ORDER BY " ++ .join ", " orders ++ ") FILTER (WHERE " ++
        inner ++ " IS NOT NULL) FROM " ++ tables ++ " WHERE " ++ tie ++ ")"

/-- Put an expression into the deepest scope that it reads from. -/
def descend (scope : Scope) (e : Expr) (body : Scope → Except CompileError Sql) :
    Except CompileError Sql := do
  match ← scope.deepPath e with
  | none => body scope
  | some deep => return scope.collected deep e (← body { scope with path := deep })

/-- Put an expression into the scope that it needs, where `body` translates it. -/
def place (scope : Scope) (e : Expr) (body : Scope → Except CompileError Sql) :
    Except CompileError Sql :=
  match e with
  | .nary .and _ | .nary .or _ | .unary .not _ => body scope
  | .unary .first x => do
    if ← scope.isList x then return (← body scope) ++ "[1]" else scope.descend e body
  | .unary .last x => do
    if ← scope.isList x then return (← body scope) ++ "[-1]" else scope.descend e body
  | e => scope.descend e body

/-- The expression, translated as `value`, has no value. -/
def missingOf (scope : Scope) (x : Expr) (value : Except CompileError Sql) :
    Except CompileError Sql :=
  match x.var? with
  | some (path, type) => .ok (scope.missingVar path type)
  | none => value.map fun v => "(" ++ v ++ " IS NULL)"

/-- The expression, translated as `value`, as a value of a type. -/
def convertOf (scope : Scope) (type : DataType) (x : Expr) (value : Except CompileError Sql) :
    Except CompileError Sql :=
  match type with
  | .boolean =>
    if x.dataType == .boolean then value else (scope.missingOf x value).map Sql.negation
  | .number => value.map fun v => v.asNumber x.dataType
  | .integer => value.map fun v => "TRUNC(" ++ v.asNumber x.dataType ++ ")"
  | .string => value.map fun v => v.asText x.dataType
  | _ => value

/-- The expression, translated as `value`, has a value of a type. -/
def isTypeOf (scope : Scope) (type : DataType) (x : Expr) (value : Except CompileError Sql) :
    Except CompileError Sql :=
  match x.var? with
  | some (path, _) => .ok (scope.isTypeVar type path)
  | none =>
    let t := x.dataType
    if t == type || (type == .number && t == .integer) then
      value.map fun v => "(" ++ v ++ " IS NOT NULL)"
    else .ok "FALSE"

/-- The expression, translated as `value`, is in a set of constants. -/
def memberOf (scope : Scope) (x : Expr) (set : List Json) (value : Except CompileError Sql) :
    Except CompileError Sql := do
  let constants := (set.filter (Sql.comparable x.dataType)).map Sql.value
  let found : Sql ←
    if constants.isEmpty then pure (Sql.word "FALSE")
    else value.map fun v => "COALESCE(" ++ v ++ " IN (" ++ .join ", " constants ++ "), FALSE)"
  if set.any Json.isNull then
    return "(" ++ (← scope.missingOf x value) ++ " OR " ++ found ++ ")"
  else return found

/-- An operator on one operand. -/
def unaryOf (scope : Scope) (op : Unary) (x : Expr) (value : Except CompileError Sql) :
    Except CompileError Sql :=
  match op with
  | .not => value.map Sql.negation
  | .missing => scope.missingOf x value
  | .present => (scope.missingOf x value).map Sql.negation
  | .first | .last => value
  | .length => value.map fun v => "LENGTH(" ++ v.asText x.dataType ++ ")"
  | .convert type => scope.convertOf type x value
  | .isType type => scope.isTypeOf type x value

/-- An operator on two operands. -/
def binaryOf (op : Binary) (a b : DataType) (x y : Except CompileError Sql) :
    Except CompileError Sql :=
  let texts (build : Sql → Sql → Sql) : Except CompileError Sql := do
    return build ((← x).asText a) ((← y).asText b)
  match op with
  | .eq => return "(" ++ (← x) ++ " IS NOT DISTINCT FROM " ++ (← y) ++ ")"
  | .ne => return "(" ++ (← x) ++ " IS DISTINCT FROM " ++ (← y) ++ ")"
  | .compare o => return Sql.comparison o (← x) (← y)
  | .side o => return Sql.side o ((← x).asText a) (Sql.position (← y))
  | .split => texts fun v separator => "string_split(" ++ v ++ ", " ++ separator ++ ")"
  | .startsWith => do
    let part := (← y).asText b
    return Sql.affix "starts_with" ((← x).asText a) part
  | .endsWith => do
    let part := (← y).asText b
    return Sql.affix "ends_with" ((← x).asText a) part
  | .get => return (← x) ++ "[CAST(" ++ (← y) ++ " AS BIGINT) + 1]"
  | .basicEq => return "(" ++ (← x) ++ " = " ++ (← y) ++ ")"
  | .basicCompare o => return "(" ++ (← x) ++ " " ++ o.sign ++ " " ++ (← y) ++ ")"

def numbers (values : List Sql) (types : List DataType) : List Sql :=
  List.zipWith Sql.asNumber values types

def texts (values : List Sql) (types : List DataType) : List Sql :=
  List.zipWith Sql.asText values types

/-- Values as values of one type that covers theirs. -/
def unified (target : DataType) (values : List Sql) (types : List DataType) : List Sql :=
  List.zipWith (fun v t => if t.isScalar && target.isScalar then v.cast t target else v)
    values types

/-- An operator on any count of operands. -/
def naryOf (op : Nary) (types : List DataType) (values : List Sql) : Sql :=
  match op with
  | .and => Sql.connective " AND " "TRUE" values
  | .or => Sql.connective " OR " "FALSE" values
  | .coalesce =>
    if values.isEmpty then "NULL"
    else .coalesce (unified (DataType.union types).storage values types)
  | .min => Sql.extreme "LEAST" (numbers values types)
  | .max => Sql.extreme "GREATEST" (numbers values types)
  | .count =>
    if values.isEmpty then "0"
    else
      Sql.parens (.join " + "
        (values.map fun v => "CASE WHEN " ++ v ++ " IS NULL THEN 0 ELSE 1 END"))
  | .tuple => "[" ++ .join ", " values ++ "]"

mutual

/-- The SQL of an expression in a scope that is deep enough for it, with
    `onBetween` giving that of a text between two others. -/
def body (onBetween : Scope → Expr → Except CompileError Sql) :
    Expr → Scope → Except CompileError Sql
  | .const value, _ => .ok (.value value)
  | .date seconds, _ => .ok (.float seconds)
  | .var path type, scope => .ok (scope.valueOf path type)
  | .offset i, _ => .error (.looseOffset i)
  | .script sql, _ => .ok (.script sql)
  | .leaves path, scope =>
    .ok (scope.snowflake.document (if path == Path.root then scope.path else path))
  | .rows path shift, scope => .ok (scope.shifted path shift)
  | .unary op x, scope => scope.unaryOf op x (scope.place x (body onBetween x))
  | .binary op a b, scope =>
    binaryOf op a.dataType b.dataType (scope.place a (body onBetween a))
      (scope.place b (body onBetween b))
  | .nary op terms, scope => do
    return naryOf op (Expr.dataTypes terms) (← bodies onBetween terms scope)
  | .when cond x y, scope => do
    let c ← scope.place cond (body onBetween cond)
    let v ← scope.place x (body onBetween x)
    let w ← scope.place y (body onBetween y)
    return "CASE WHEN " ++ c ++ " THEN " ++ v ++ " ELSE " ++ w ++ " END"
  | .case clauses other, scope => do
    let whens ← clauseBodies onBetween clauses scope
    let w ← scope.place other (body onBetween other)
    return "CASE " ++ .join " " whens ++ " ELSE " ++ w ++ " END"
  | .member x set, scope => scope.memberOf x set (scope.place x (body onBetween x))
  | .matching x pattern, scope => do
    let v ← scope.place x (body onBetween x)
    return "COALESCE(regexp_full_match(" ++ v.asText x.dataType ++ ", " ++ .text pattern ++
      "), FALSE)"
  | .range x bounds, scope => do
    let v ← scope.place x (body onBetween x)
    return Sql.parens (.join " AND " (← boundBodies onBetween v bounds scope))
  | .arith op a b other, scope => do
    let x ← scope.place a (body onBetween a)
    let y ← scope.place b (body onBetween b)
    let raw := Sql.arith op (x.asNumber a.dataType) (y.asNumber b.dataType)
    if other.isNull then return raw
    else return raw.orElse (← scope.place other (body onBetween other))
  | .fold op terms nulls other, scope => do
    let values ← bodies onBetween terms scope
    let w ← scope.place other (body onBetween other)
    return Sql.fold op (numbers values (Expr.dataTypes terms)) nulls (!other.isNull) w
  | .concat terms separator other, scope => do
    let values ← bodies onBetween terms scope
    let w ← scope.place other (body onBetween other)
    return Sql.concat (texts values (Expr.dataTypes terms)) separator w
  | .find text needle start other, scope => do
    let s ← scope.place start (body onBetween start)
    let t ← scope.place text (body onBetween text)
    let n ← scope.place needle (body onBetween needle)
    let index := Sql.indexOf (t.asText text.dataType) (n.asText needle.dataType) s.position
    let w ← scope.place other (body onBetween other)
    return "CASE WHEN " ++ index ++ " IS NULL OR " ++ index ++ " = -1 THEN " ++ w ++ " ELSE " ++
      index ++ " END"
  | .between text opening closing start other, scope =>
    onBetween scope (.between text opening closing start other)
  | .select fields, scope => do
    return Sql.struct (← fieldBodies onBetween fields scope)
  | .indexOf text needle start, scope => do
    let s ← scope.place start (body onBetween start)
    let t ← scope.place text (body onBetween text)
    let n ← scope.place needle (body onBetween needle)
    return Sql.indexOf (t.asText text.dataType) (n.asText needle.dataType) s.position
  | .substring text start stop, scope => do
    let s ← scope.place start (body onBetween start)
    let e ← scope.place stop (body onBetween stop)
    let t ← scope.place text (body onBetween text)
    return "substr(" ++ t.asText text.dataType ++ ", " ++ s.position ++ " + 1, GREATEST(CAST(" ++
      e ++ " AS BIGINT) - " ++ s.position ++ ", 0))"

/-- The SQL of several expressions. -/
def bodies (onBetween : Scope → Expr → Except CompileError Sql) :
    List Expr → Scope → Except CompileError (List Sql)
  | [], _ => .ok []
  | x :: xs, scope => do
    let v ← scope.place x (body onBetween x)
    return v :: (← bodies onBetween xs scope)

def clauseBodies (onBetween : Scope → Expr → Except CompileError Sql) :
    List (Expr × Expr) → Scope → Except CompileError (List Sql)
  | [], _ => .ok []
  | (cond, x) :: rest, scope => do
    let c ← scope.place cond (body onBetween cond)
    let v ← scope.place x (body onBetween x)
    return ("WHEN " ++ c ++ " THEN " ++ v) :: (← clauseBodies onBetween rest scope)

def boundBodies (onBetween : Scope → Expr → Except CompileError Sql) (value : Sql) :
    List (Inequality × Expr) → Scope → Except CompileError (List Sql)
  | [], _ => .ok []
  | (op, x) :: rest, scope => do
    let v ← scope.place x (body onBetween x)
    return Sql.comparison op value v :: (← boundBodies onBetween value rest scope)

def fieldBodies (onBetween : Scope → Expr → Except CompileError Sql) :
    List (String × Expr) → Scope → Except CompileError (List (String × Sql))
  | [], _ => .ok []
  | (name, x) :: rest, scope => do
    let v ← scope.place x (body onBetween x)
    return (name, v) :: (← fieldBodies onBetween rest scope)

end

/-- The SQL of a text between two others: that of its simple form. -/
def betweenOf (scope : Scope) (e : Expr) : Except CompileError Sql :=
  let simple := e.simplify scope.snowflake.schema
  if simple == e then .error .between
  else scope.place simple (body (fun _ _ => .error .between) simple)

def translate (scope : Scope) (e : Expr) : Except CompileError Sql :=
  scope.place e (body betweenOf e)

end Scope

end Snowbank
