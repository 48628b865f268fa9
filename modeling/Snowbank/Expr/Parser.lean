import Snowbank.Expr.Basic
import Snowbank.Expr.Error

/-!
# Reading Expressions

Expressions from their JSON form.

An operator is an object with one key that is not an option, and the operands
are an array or a single one. Most operators on two operands also take fields
with constants: `{"eq": {"a": 1, "b": "x"}}` compares the fields `a` and `b`
with the constants given, where the same texts in an array would be
variables.

Which parts of a value are read as expressions depends on the operator, so
all parts are read first, and an operator takes the readings it needs. A part
that is not an expression does no harm where it is taken as a constant.
-/

namespace Snowbank

/-- What may be read, and the present, for moments that depend on it. -/
structure ReadOptions where
  /-- SQL text may stand in expressions. -/
  allowScript : Bool
  /-- The present, in seconds since the beginning of 1970. -/
  now : Float

namespace Expr

/-- Keys that stand beside an operator. -/
def optionKeys : List String := ["default", "separator", "nulls", "start", "then", "else"]

/-- The key is not an option. -/
def isOperatorKey (key : String) : Bool := !optionKeys.contains key

def operatorNames : List String :=
  ["literal", "date", "script", "offset", "and", "or", "not", "when", "case", "eq", "ne", "gt",
   "gte", "lt", "lte", "in", "nin", "range", "missing", "exists", "coalesce", "first", "last",
   "boolean", "integer", "number", "string", "is_boolean", "is_integer", "is_number",
   "is_string", "add", "mul", "sub", "div", "mod", "exp", "floor", "min", "max", "count",
   "length", "concat", "left", "right", "not_left", "not_right", "find", "split", "prefix",
   "suffix", "regexp", "between", "tuple", "leaves", "select", "get", "rows", "basic.eq",
   "basic.gt", "basic.gte", "basic.lt", "basic.lte", "basic.index_of", "basic.substring"]

/-- The object is an operator with its options. -/
def isOperatorObject (fields : Fields) : Bool :=
  match fields.filter fun (key, _) => isOperatorKey key with
  | [(key, _)] => operatorNames.contains key
  | _ => false

/-- A value, what it reads as, and the same for its parts. -/
inductive Reading where
  | mk (value : Json) (expr : Except ExprError Expr) (items : List Reading)
      (fields : List (String × Reading))

namespace Reading

def value : Reading → Json
  | mk v _ _ _ => v

/-- The value as an expression. -/
def expr : Reading → Except ExprError Expr
  | mk _ e _ _ => e

/-- The readings of the items of an array. -/
def items : Reading → List Reading
  | mk _ _ xs _ => xs

/-- The readings of the fields of an object. -/
def fields : Reading → List (String × Reading)
  | mk _ _ _ fs => fs

/-- The reading beside a constant: objects are expressions, the rest are constants. -/
def constantOperand (r : Reading) : Except ExprError Expr :=
  match r.value with
  | .obj _ => r.expr
  | v => .ok (const v)

/-- The fields with constants that operands may be given as. -/
def pairs? (r : Reading) : Option (List (String × Reading)) :=
  match r.value with
  | .obj fs => if isOperatorObject fs || fs.isEmpty then none else some r.fields
  | _ => none

def operands (op : String) (r : Reading) : Except ExprError (List Expr) :=
  match r.value with
  | .arr _ => r.items.mapM expr
  | .obj fs => if isOperatorObject fs then r.expr.map (fun e => [e]) else .error (.fieldForm op)
  | _ => r.expr.map fun e => [e]

/-- The only operand of an operator. -/
def operand (op : String) (r : Reading) : Except ExprError Expr := do
  match ← r.operands op with
  | [e] => .ok e
  | es => .error (.arity op "1" es.length)

/-- The two operands of an operator, as an array or as a field with a constant. -/
def pair (op : String) (r : Reading) : Except ExprError (Expr × Expr) :=
  match r.pairs? with
  | some [(path, value)] => return (field path, ← value.constantOperand)
  | some pairs => .error (.arity op "2" (pairs.length * 2))
  | none => do
    match ← r.operands op with
    | [a, b] => .ok (a, b)
    | es => .error (.arity op "2" es.length)

/-- The three operands of an operator. -/
def triple (op : String) (r : Reading) : Except ExprError (Expr × Expr × Expr) := do
  match ← r.operands op with
  | [a, b, c] => .ok (a, b, c)
  | es => .error (.arity op "3" es.length)

/-- A term alone, or the conjunction of several. -/
def conjunction : List Expr → Expr
  | [e] => e
  | es => and es

/-- A field compared with a constant; compared with an array it is tested for membership. -/
def fieldComparison (op : String) (build : Expr → Expr → Expr) (path : String)
    (value : Reading) : Except ExprError Expr :=
  match op, value.value with
  | "eq", .arr set => .ok (member (field path) set)
  | "ne", .arr set => .ok (not (member (field path) set))
  | _, _ => value.constantOperand.map (build (field path))

/-- A comparison of two operands, or of several fields with constants. -/
def comparison (op : String) (build : Expr → Expr → Expr) (r : Reading) :
    Except ExprError Expr :=
  match r.pairs? with
  | some pairs =>
    (pairs.mapM fun (path, value) => fieldComparison op build path value).map conjunction
  | none => (r.pair op).map fun (a, b) => build a b

/-- A test for membership in a set of constants. -/
def membership (op : String) (r : Reading) : Except ExprError Expr := do
  let (x, set) ← r.pair op
  match set.constant? with
  | some values => .ok (member x values.asList)
  | none => .error (.setForm op)

/-- A field between bounds. -/
def rangeOf (path : String) (r : Reading) : Except ExprError Expr :=
  match r.value with
  | .obj _ => do
    let bounds ← r.fields.mapM fun (name, bound) =>
      match Inequality.ofName? name with
      | some op => bound.constantOperand.map fun e => (op, e)
      | none => .error (.unknownOperator name)
    return range (field path) bounds
  | _ => .error (.boundsForm path)

/-- Fields between bounds. -/
def ranges (r : Reading) : Except ExprError Expr :=
  match r.pairs? with
  | some pairs => (pairs.mapM fun (path, bounds) => rangeOf path bounds).map conjunction
  | none => .error .rangeForm

/-- The reading of a field, or the expression to take without one. -/
def option (key : String) (other : Expr) (fields : List (String × Reading)) :
    Except ExprError Expr :=
  match Ordered.get? key fields with
  | some r => r.expr
  | none => .ok other

/-- The clauses of a choice; the last one may be the other value. -/
def clauses : List Reading → Except ExprError (List (Expr × Expr) × Expr)
  | [] => .ok ([], null)
  | r :: rest =>
    match Ordered.get? "when" r.fields with
    | some cond => do
      let cond ← cond.expr
      let value ← option "then" null r.fields
      let (more, other) ← clauses rest
      return ((cond, value) :: more, other)
    | none =>
      if rest.isEmpty then r.expr.map fun e => ([], e) else .error .caseOrder

/-- A choice of several clauses. -/
def caseOf (r : Reading) : Except ExprError Expr :=
  match r.value with
  | .arr _ => (clauses r.items).map fun (cs, other) => case cs other
  | _ => .error .caseForm

/-- The text of a field, its opening and its closing. -/
def delimited (r : Reading) : Except ExprError (Expr × Expr × Expr) :=
  match r.pairs? with
  | some [(path, bounds)] =>
    match bounds.value with
    | .arr [a, b] => .ok (field path, const a, const b)
    | .arr items => .error (.arity "between" "3" (items.length + 1))
    | _ => .error .betweenForm
  | some _ => .error .betweenForm
  | none => r.triple "between"

/-- A field of a selection: a path, or a name with an expression. -/
def selected (r : Reading) : Except ExprError (String × Expr) :=
  match r.value with
  | .str path => .ok (path, field path)
  | .obj fs =>
    match (Ordered.get? "name" fs).bind Json.str? with
    | some name => (option "value" (field name) r.fields).map fun e => (name, e)
    | none => .error .selectName
  | v => .error (.selectForm v)

/-- Fields to select. -/
def selection (r : Reading) : Except ExprError Expr :=
  let parts :=
    match r.value with
    | .arr _ => r.items
    | _ => [r]
  (parts.mapM selected).map select

/-- An operator without options on one operand, by name. -/
def unary? : String → Option Unary
  | "not" => some .not
  | "missing" => some .missing
  | "exists" => some .present
  | "first" => some .first
  | "last" => some .last
  | "length" => some .length
  | "boolean" => some (.convert .boolean)
  | "integer" => some (.convert .integer)
  | "number" => some (.convert .number)
  | "string" => some (.convert .string)
  | "is_boolean" => some (.isType .boolean)
  | "is_integer" => some (.isType .integer)
  | "is_number" => some (.isType .number)
  | "is_string" => some (.isType .string)
  | _ => none

/-- An operator on two operands, by name. -/
def binary? : String → Option Binary
  | "left" => some (.side .left)
  | "right" => some (.side .right)
  | "not_left" => some (.side .notLeft)
  | "not_right" => some (.side .notRight)
  | "split" => some .split
  | "prefix" => some .startsWith
  | "suffix" => some .endsWith
  | "get" => some .get
  | "basic.eq" => some .basicEq
  | "basic.gt" => some (.basicCompare .gt)
  | "basic.gte" => some (.basicCompare .gte)
  | "basic.lt" => some (.basicCompare .lt)
  | "basic.lte" => some (.basicCompare .lte)
  | _ => none

/-- A comparison, by name. -/
def comparison? : String → Option Binary
  | "eq" => some .eq
  | "ne" => some .ne
  | "gt" => some (.compare .gt)
  | "gte" => some (.compare .gte)
  | "lt" => some (.compare .lt)
  | "lte" => some (.compare .lte)
  | _ => none

/-- An operator on any count of operands, by name. -/
def nary? : String → Option Nary
  | "and" => some .and
  | "or" => some .or
  | "coalesce" => some .coalesce
  | "min" => some .min
  | "max" => some .max
  | "count" => some .count
  | "tuple" => some .tuple
  | _ => none

/-- Arithmetic on two operands, by name. -/
def arith? : String → Option Arith
  | "sub" => some .sub
  | "div" => some .div
  | "mod" => some .mod
  | "exp" => some .exp
  | "floor" => some .floor
  | _ => none

/-- Arithmetic on any count of operands, by name. -/
def fold? : String → Option Fold
  | "add" => some .add
  | "mul" => some .mul
  | _ => none

/-- The value of another row of a window. -/
def rowsOf (r : Reading) : Except ExprError Expr := do
  match ← r.pair "rows" with
  | (var path _, shift) =>
    match shift.constant?.bind Json.int64? with
    | some n => .ok (rows path n)
    | none => .error .rowsForm
  | _ => .error .rowsForm

/-- An operator of its own form. -/
def special (settings : ReadOptions) (op : String) (r : Reading)
    (options : List (String × Reading)) : Except ExprError Expr :=
  match op with
  | "literal" => .ok (const r.value)
  | "date" =>
    match Moment.ofJson settings.now r.value with
    | .ok seconds => .ok (date seconds)
    | .error e => .error (.moment e)
  | "script" =>
    if settings.allowScript then
      match r.value with
      | .str sql => .ok (script sql)
      | _ => .error .scriptForm
    else .error .scriptForbidden
  | "offset" =>
    match r.value.nat? with
    | some i => .ok (offset i)
    | none => .error .offsetForm
  | "when" => return when (← r.expr) (← option "then" null options) (← option "else" null options)
  | "case" => r.caseOf
  | "in" => r.membership op
  | "nin" => (r.membership op).map not
  | "range" => r.ranges
  | "concat" => do
    let terms ← r.operands op
    let separator := ((Ordered.get? "separator" options).bind (·.value.str?)).getD ""
    return concat terms separator (← option "default" null options)
  | "find" => do
    let (text, needle) ← r.pair op
    return find text needle (← option "start" (int 0) options) (← option "default" null options)
  | "regexp" => do
    let (x, pattern) ← r.pair op
    match pattern.constant?.bind Json.str? with
    | some text => .ok (matching x text)
    | none => .error .patternForm
  | "between" => do
    let (text, opening, closing) ← r.delimited
    return between text opening closing (← option "start" (int 0) options)
      (← option "default" null options)
  | "leaves" =>
    match r.value with
    | .str path => .ok (leaves path)
    | _ => .error .leavesForm
  | "select" => r.selection
  | "rows" => r.rowsOf
  | "basic.index_of" => (r.triple op).map fun (a, b, c) => indexOf a b c
  | "basic.substring" => (r.triple op).map fun (a, b, c) => substring a b c
  | _ => .error (.unknownOperator op)

/-- An operator applied to its operands. -/
def operator (settings : ReadOptions) (op : String) (r : Reading)
    (options : List (String × Reading)) : Except ExprError Expr :=
  match unary? op, binary? op, comparison? op, nary? op, arith? op, fold? op with
  | some o, _, _, _, _, _ => (r.operand op).map (unary o)
  | _, some o, _, _, _, _ => (r.pair op).map fun (a, b) => binary o a b
  | _, _, some o, _, _, _ => r.comparison op (binary o)
  | _, _, _, some o, _, _ => (r.operands op).map (nary o)
  | _, _, _, _, some o, _ => do
    let (a, b) ← r.pair op
    return arith o a b (← option "default" null options)
  | _, _, _, _, _, some o => do
    let terms ← r.operands op
    let nulls := ((Ordered.get? "nulls" options).bind (·.value.bool?)).getD false
    return fold o terms nulls (← option "default" null options)
  | _, _, _, _, _, _ => special settings op r options

/-- An object as an expression: one operator with its options. -/
def object (settings : ReadOptions) (fields : List (String × Reading)) : Except ExprError Expr :=
  match fields.filter fun (key, _) => isOperatorKey key with
  | [(op, r)] => operator settings op r fields
  | [] => .error .noOperator
  | (a, _) :: (b, _) :: _ => .error (.manyOperators a b)

mutual

/-- Read a value and all its parts. -/
def ofJson (settings : ReadOptions) : Json → Reading
  | .str path => mk (.str path) (.ok (field path)) [] []
  | .arr items =>
    let readings := ofItems settings items
    mk (.arr items) ((readings.mapM expr).map (nary .tuple)) readings []
  | .obj fields =>
    let readings := ofFields settings fields
    mk (.obj fields) (object settings readings) [] readings
  | v => mk v (.ok (const v)) [] []

/-- Read the items of an array. -/
def ofItems (settings : ReadOptions) : List Json → List Reading
  | [] => []
  | x :: xs => ofJson settings x :: ofItems settings xs

/-- Read the fields of an object. -/
def ofFields (settings : ReadOptions) : List (String × Json) → List (String × Reading)
  | [] => []
  | (key, x) :: rest => (key, ofJson settings x) :: ofFields settings rest

end

end Reading

def ofJson (settings : ReadOptions) (value : Json) : Except ExprError Expr :=
  (Reading.ofJson settings value).expr

end Expr

end Snowbank
