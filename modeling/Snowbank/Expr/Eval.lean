import Snowbank.Expr.Basic
import Snowbank.Json.Compare
import Snowbank.Json.Lookup
import Snowbank.Pattern.Whole
import Snowbank.Text.Search

/-!
# Values of Expressions

The value of an expression on a document. Every operator is a function of the
values of its operands; a result that is not there is null.

This is what expressions mean. Simplifying folds constants with it.
-/

namespace Snowbank

namespace Inequality

/-- Compare two values; values of two kinds are in no order. -/
def apply (op : Inequality) (a b : Json) : Bool :=
  match Json.order? a b with
  | some order => op.holds order
  | none => false

/-- Compare two values that may be missing. -/
def applyPresent (op : Inequality) (a b : Json) : Bool :=
  !a.isMissing && !b.isMissing && op.apply a b

end Inequality

/-- A value as a value of a type. Everything that is there counts as true. -/
def DataType.convert (type : DataType) (value : Json) : Json :=
  match type with
  | .boolean =>
    match value with
    | .bool b => .bool b
    | v => .bool (!v.isMissing)
  | .number =>
    match value.toNumber? with
    | some x => .ofFloat x
    | none => .null
  | .integer =>
    match value.toNumber? with
    | some x => .ofFloat (roundToZero x)
    | none => .null
  | .string => .optStr value.asText?
  | _ => value

/-- The value is of a scalar type. A whole number is an integer, however it is written. -/
def DataType.describes : DataType → Json → Bool
  | .boolean, .bool _ => true
  | .string, .str _ => true
  | .number, .num _ => true
  | .integer, .num n => isWhole n.toFloat
  | _, _ => false

/-- An operator on one value. -/
def Unary.apply (op : Unary) (value : Json) : Json :=
  match op with
  | .not => .bool (!value.isTruthy)
  | .missing => .bool value.isMissing
  | .present => .bool (!value.isMissing)
  | .first =>
    match value with
    | .arr items => items.head?.getD .null
    | v => v
  | .last =>
    match value with
    | .arr items => items.getLast?.getD .null
    | v => v
  | .length =>
    match value with
    | .str s => .nat s.length
    | _ => .null
  | .convert t => t.convert value
  | .isType t => .bool (t.describes value)

/-- Equality in which no value equals no value. -/
def Json.nullEq (a b : Json) : Bool :=
  if a.isMissing || b.isMissing then a.isMissing && b.isMissing else a.valueEq b

/-- An end of a text, or the text without it; a count below zero is zero. -/
def Side.apply (op : Side) (text : String) (count : Int) : String :=
  let size : Int := text.length
  let n := max count 0
  match op with
  | .left => Text.substring text 0 n
  | .right => Text.substring text (max (size - n) 0) size
  | .notLeft => Text.substring text (min n size) size
  | .notRight => Text.substring text 0 (max (size - n) 0)

/-- Test a text against another one that may be missing, and then does not restrict it. -/
def Json.testText (test : String → String → Bool) (value other : Json) : Bool :=
  match value.asText?, other.asText? with
  | _, none => true
  | none, some _ => false
  | some s, some t => test s t

/-- An item of an array or a field of an object. -/
def Json.item (container index : Json) : Json :=
  match container, index with
  | .arr items, .num n =>
    match n.toInt64? with
    | some i => if i < 0 then .null else (items[i.toNat]?).getD .null
    | none => .null
  | .obj fields, .str key => (Json.obj fields).lookup key
  | _, _ => .null

/-- An operator on two values. -/
def Binary.apply (op : Binary) (a b : Json) : Json :=
  match op with
  | .eq => .bool (a.nullEq b)
  | .ne => .bool (!a.nullEq b)
  | .compare o => .bool (o.applyPresent a b)
  | .side o =>
    match a.asText?, b.toIndex? with
    | some s, some n => .str (o.apply s n)
    | _, _ => .null
  | .split =>
    match a.asText?, b.asText? with
    | some s, some separator =>
      if separator.isEmpty then .null else .strings (Text.splitOn s separator)
    | _, _ => .null
  | .startsWith => .bool (Json.testText Text.startsWith a b)
  | .endsWith => .bool (Json.testText Text.endsWith a b)
  | .get => a.item b
  | .basicEq => if a.isNull || b.isNull then .null else .bool (a.valueEq b)
  | .basicCompare o => if a.isNull || b.isNull then .null else .bool (o.apply a b)

/-- The smaller of two doubles; NaN counts as absent. -/
def smaller (a b : Float) : Float :=
  if a.isNaN then b else if b < a then b else a

/-- The larger of two doubles; NaN counts as absent. -/
def larger (a b : Float) : Float :=
  if a.isNaN then b else if a < b then b else a

/-- The number chosen from a list by a choice between two. -/
def Json.extreme (choose : Float → Float → Float) (values : List Json) : Json :=
  match values.filterMap Json.toNumber? with
  | [] => .null
  | x :: rest => .ofFloat (rest.foldl choose x)

/-- An operator on any count of values. -/
def Nary.apply (op : Nary) (values : List Json) : Json :=
  match op with
  | .and => .bool (values.all Json.isTruthy)
  | .or => .bool (values.any Json.isTruthy)
  | .coalesce => (values.find? fun v => !v.isMissing).getD .null
  | .min => Json.extreme smaller values
  | .max => Json.extreme larger values
  | .count => .nat (values.filter fun v => !v.isMissing).length
  | .tuple => .arr values

/-- The value is in a set of values. A value that is missing is in a set with null. -/
def Json.isIn (value : Json) (set : List Json) : Bool :=
  if value.isMissing then set.any Json.isNull else set.any value.valueEq

/-- The value is a text that matches a pattern as a whole. -/
def Json.fits (pattern : String) : Json → Bool
  | .str s => Pattern.matchesWhole pattern s
  | _ => false

/-- Arithmetic on two numbers, where it is defined. -/
def Arith.apply? (op : Arith) (a b : Float) : Option Float :=
  let result :=
    match op with
    | .sub => some (a - b)
    | .exp => some (Float.pow a b)
    | .div => if b == 0.0 then none else some (a / b)
    | .mod => if b == 0.0 then none else some (remainder a b)
    | .floor => if b == 0.0 then none else some (roundDown (a / b) * b)
  result.filter Float.isFinite

/-- Arithmetic on two values, or the value to take instead. -/
def Arith.apply (op : Arith) (a b other : Json) : Json :=
  match a.toNumber?, b.toNumber? with
  | some x, some y =>
    match op.apply? x y with
    | some z => .ofFloat z
    | none => other
  | _, _ => other

/-- The sum or product of numbers. -/
def Fold.total (op : Fold) (numbers : List Float) : Float :=
  match op with
  | .add => numbers.foldl (· + ·) 0.0
  | .mul => numbers.foldl (· * ·) 1.0

/-- The sum or product of values, or the value to take instead: when one is
    not a number, or with `nulls` when none is. -/
def Fold.apply (op : Fold) (nulls : Bool) (values : List Json) (other : Json) : Json :=
  let numbers := values.filterMap Json.toNumber?
  if (!nulls && numbers.length != values.length) || (numbers.isEmpty && !values.isEmpty) then other
  else .ofFloat (op.total numbers)

/-- Texts joined by a separator, or the value to take instead when there are none. -/
def Json.join (separator : String) (values : List Json) (other : Json) : Json :=
  match values.filterMap Json.asText? with
  | [] => other
  | parts => .str (separator.intercalate parts)

/-- The position of a text in another one, if it occurs. -/
def Json.position? (text needle start : Json) : Option Int :=
  match text.asText?, needle.asText? with
  | some s, some n => some (Text.indexOf s n (start.toIndex?.getD 0))
  | _, _ => none

/-- The text between two others, if it is there. A text that is missing does not delimit. -/
def Json.between? (text opening closing start : Json) : Option String :=
  match text.asText? with
  | none => none
  | some s =>
    let begin? : Option Int :=
      match opening.asText? with
      | none => some (start.toIndex?.getD 0)
      | some o =>
        let i := Text.indexOf s o (start.toIndex?.getD 0)
        if i == -1 then none else some (i + o.length)
    begin?.bind fun i =>
      match closing.asText? with
      | none => some (Text.substring s i s.length)
      | some c =>
        let j := Text.indexOf s c i
        if j == -1 then none else some (Text.substring s i j)

/-- The characters of a text between two positions. -/
def Json.cut (text start stop : Json) : Json :=
  match text.asText?, start.toIndex?, stop.toIndex? with
  | some s, some i, some j => .str (Text.substring s i j)
  | _, _, _ => .null

namespace Expr

mutual

/-- The value of an expression on a document, with variables read by `read`. -/
def evaluateWith (read : Path → DataType → Json) (row : Json) : Expr → Json
  | const value => value
  | date seconds => .ofFloat seconds
  | var path type => read path type
  | offset i =>
    match row with
    | .arr items => (items[i]?).getD .null
    | _ => .null
  | script _ => .null
  | leaves path => (row.lookup path).leaves
  | rows _ _ => .null
  | unary op x => op.apply (evaluateWith read row x)
  | binary op a b => op.apply (evaluateWith read row a) (evaluateWith read row b)
  | nary op terms => op.apply (evaluateAll read row terms)
  | when cond x y =>
    if (evaluateWith read row cond).isTruthy then evaluateWith read row x
    else evaluateWith read row y
  | case clauses other => evaluateCase read row clauses (evaluateWith read row other)
  | member x set => .bool ((evaluateWith read row x).isIn set)
  | matching x pattern => .bool ((evaluateWith read row x).fits pattern)
  | range x bounds => .bool (evaluateBounds read row (evaluateWith read row x) bounds)
  | arith op a b other =>
    op.apply (evaluateWith read row a) (evaluateWith read row b) (evaluateWith read row other)
  | fold op terms nulls other =>
    op.apply nulls (evaluateAll read row terms) (evaluateWith read row other)
  | concat terms separator other =>
    Json.join separator (evaluateAll read row terms) (evaluateWith read row other)
  | find text needle start other =>
    match (evaluateWith read row text).position? (evaluateWith read row needle)
        (evaluateWith read row start) with
    | some i => if i == -1 then evaluateWith read row other else .int i
    | none => evaluateWith read row other
  | between text opening closing start other =>
    match (evaluateWith read row text).between? (evaluateWith read row opening)
        (evaluateWith read row closing) (evaluateWith read row start) with
    | some s => .str s
    | none => evaluateWith read row other
  | select fields => .mkObj (evaluateFields read row fields)
  | indexOf text needle start =>
    match (evaluateWith read row text).position? (evaluateWith read row needle)
        (evaluateWith read row start) with
    | some i => .int i
    | none => .null
  | substring text start stop =>
    (evaluateWith read row text).cut (evaluateWith read row start) (evaluateWith read row stop)

/-- The values of several expressions. -/
def evaluateAll (read : Path → DataType → Json) (row : Json) : List Expr → List Json
  | [] => []
  | x :: xs => evaluateWith read row x :: evaluateAll read row xs

/-- The value of the first clause whose condition is true, or the other value. -/
def evaluateCase (read : Path → DataType → Json) (row : Json) :
    List (Expr × Expr) → Json → Json
  | [], other => other
  | (cond, x) :: rest, other =>
    if (evaluateWith read row cond).isTruthy then evaluateWith read row x
    else evaluateCase read row rest other

/-- A value satisfies all bounds. -/
def evaluateBounds (read : Path → DataType → Json) (row value : Json) :
    List (Inequality × Expr) → Bool
  | [] => true
  | (op, bound) :: rest =>
    op.applyPresent value (evaluateWith read row bound) && evaluateBounds read row value rest

/-- The fields that have a value. -/
def evaluateFields (read : Path → DataType → Json) (row : Json) : List (String × Expr) → Fields
  | [] => []
  | (name, x) :: rest =>
    let value := evaluateWith read row x
    if value.isNull then evaluateFields read row rest
    else (name, value) :: evaluateFields read row rest

end

/-- The value of an expression on a document. A variable is the value at its
    path, whatever its type. -/
def evaluate (row : Json) (e : Expr) : Json :=
  e.evaluateWith (fun path _ => row.lookup path) row

end Expr

end Snowbank
