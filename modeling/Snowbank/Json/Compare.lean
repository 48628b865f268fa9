import Snowbank.Json.Printer
import Snowbank.Number.Decimal
import Snowbank.Text.Blank

/-!
# Comparing and Converting Values

How expressions look at values: which are missing, which are true, when two
are equal, and what a value is as a number or as text.

Numbers are equal by value here, whether written as integers or not, and a
single value is equal to an array that holds it.
-/

namespace Snowbank.Json

/-- Null and the empty array stand for no value. -/
def isMissing : Json → Bool
  | .null => true
  | .arr items => items.isEmpty
  | _ => false

mutual

/-- A value counts as true unless it is null or false; an array does when one of its items does. -/
def isTruthy : Json → Bool
  | .bool b => b
  | .null => false
  | .arr items => anyTruthy items
  | _ => true

/-- One of the items counts as true. -/
def anyTruthy : List Json → Bool
  | [] => false
  | item :: rest => isTruthy item || anyTruthy rest

end

/-- Equality of values that are not arrays. -/
def leafEq : Json → Json → Bool
  | .num a, .num b => a.toFloat == b.toFloat
  | a, b => a == b

mutual

/-- A value that is not an array equals another value, or an item of it. -/
def equalsOneOf (a : Json) : Json → Bool
  | .arr items => equalsAny a items
  | b => leafEq a b

/-- A value that is not an array equals one of the items. -/
def equalsAny (a : Json) : List Json → Bool
  | [] => false
  | item :: rest => equalsOneOf a item || equalsAny a rest

end

mutual

/-- Equality of values. Two arrays are equal item by item, and an array
    equals a single value when one of its items does. -/
def valueEq : Json → Json → Bool
  | .arr as, .arr bs => itemsEq as bs
  | .arr as, b => anyEq as b
  | a, b => equalsOneOf a b

/-- Two arrays are equal item by item. -/
def itemsEq : List Json → List Json → Bool
  | [], [] => true
  | a :: as, b :: bs => valueEq a b && itemsEq as bs
  | _, _ => false

/-- One of the items equals the value. -/
def anyEq : List Json → Json → Bool
  | [], _ => false
  | a :: as, b => valueEq a b || anyEq as b

end

/-- The order of two doubles, if neither is NaN. -/
def floatOrder? (a b : Float) : Option Ordering :=
  if a < b then some .lt
  else if b < a then some .gt
  else if a == b then some .eq
  else none

/-- The order of two numbers, two texts or two truth values. -/
def order? : Json → Json → Option Ordering
  | .num a, .num b => floatOrder? a.toFloat b.toFloat
  | .str a, .str b => some (compare a b)
  | .bool a, .bool b => some (compare a b)
  | _, _ => none

/-- The value as a number: numbers, truth values as one and zero, and texts
    that are written numbers. -/
def toNumber? : Json → Option Float
  | .num n => some n.toFloat
  | .bool b => some (if b then 1.0 else 0.0)
  | .str s => readFloat? (Text.trim s)
  | _ => none

/-- A number as a 64-bit integer, cut towards zero and to the nearest that fits. -/
def toIndex? (value : Json) : Option Int :=
  value.float?.map toInt64

/-- A number as text; whole numbers have no decimals. -/
def numberAsText (n : Number) : String :=
  let x := n.toFloat
  if isWhole x && x.abs < 1.0e15 then toString (wholePart x) else numberText n

/-- The value as text; null has none. -/
def asText? : Json → Option String
  | .null => none
  | .str s => some s
  | .bool b => some (if b then "true" else "false")
  | .num n => some (numberAsText n)
  | value => some value.toText

end Snowbank.Json
