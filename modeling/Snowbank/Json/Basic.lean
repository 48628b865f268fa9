import Snowbank.Number.Dyadic
import Snowbank.Ordered

/-!
# JSON Values

The values that documents, rows, queries and answers are made of.

A number remembers whether it was written as an integer or as a fraction:
`1` and `1.0` are different values that compare as equal numbers. The fields
of an object stand in key order, each key once, so equal objects are equal
lists.
-/

namespace Snowbank

/-- A JSON number: an integer of at most 64 bits, or a double. -/
inductive Number where
  | int (value : Int)
  | float (value : Float)
  deriving Inhabited

namespace Number

/-- Numbers of one kind are compared by value, numbers of two kinds differ. -/
def beq : Number → Number → Bool
  | .int a, .int b => a == b
  | .float a, .float b => a == b
  | _, _ => false

instance : BEq Number := ⟨beq⟩

/-- The nearest double. -/
def toFloat : Number → Float
  | .int n => Float.ofInt n
  | .float x => x

/-- The number as a signed 64-bit integer, if it is an integer that fits. -/
def toInt64? : Number → Option Int
  | .int n => if -0x8000000000000000 ≤ n && n < 0x8000000000000000 then some n else none
  | .float _ => none

/-- The number as a count, if it is an integer that is not negative. -/
def toNat? : Number → Option Nat
  | .int n => if 0 ≤ n then some n.toNat else none
  | .float _ => none

end Number

/-- A JSON value. -/
inductive Json where
  | null
  | bool (value : Bool)
  | num (value : Number)
  | str (value : String)
  | arr (items : List Json)
  | obj (fields : List (String × Json))
  deriving Inhabited

/-- The fields of an object, in key order. -/
abbrev Fields := List (String × Json)

namespace Json

mutual

/-- Two values are equal: same shape, same keys, equal leaves. -/
def beq : Json → Json → Bool
  | .null, .null => true
  | .bool a, .bool b => a == b
  | .num a, .num b => a == b
  | .str a, .str b => a == b
  | .arr as, .arr bs => beqItems as bs
  | .obj as, .obj bs => beqFields as bs
  | _, _ => false

/-- Two arrays are equal item by item. -/
def beqItems : List Json → List Json → Bool
  | [], [] => true
  | a :: as, b :: bs => beq a b && beqItems as bs
  | _, _ => false

/-- Two objects are equal field by field. -/
def beqFields : Fields → Fields → Bool
  | [], [] => true
  | (k, a) :: as, (l, b) :: bs => k == l && beq a b && beqFields as bs
  | _, _ => false

end

instance : BEq Json := ⟨beq⟩

/-- A whole number. -/
def int (n : Int) : Json := .num (.int n)

/-- A count. -/
def nat (n : Nat) : Json := .num (.int n)

/-- A double as a fraction; infinities and NaN become null. -/
def float (x : Float) : Json :=
  if x.isFinite then .num (.float x) else .null

/-- A computed number: an integer when it has no fractional part and is below
    `2 ^ 53` in size, otherwise a fraction, or null if it is not finite. -/
def ofFloat (x : Float) : Json :=
  if x.isFinite && isWhole x && x.abs < 9007199254740992.0 then int (wholePart x)
  else float x

/-- The object with the given fields; of two with one key the later stays. -/
def mkObj (fields : Fields) : Json := .obj (Ordered.ofList fields)

/-- An array of texts. -/
def strings (texts : List String) : Json := .arr (texts.map .str)

/-- The text or null. -/
def optStr : Option String → Json
  | some s => .str s
  | none => .null

/-- The count or null. -/
def optNat : Option Nat → Json
  | some n => nat n
  | none => .null

/-- The value is null. -/
def isNull : Json → Bool
  | .null => true
  | _ => false

/-- The value is an object. -/
def isObj : Json → Bool
  | .obj _ => true
  | _ => false

/-- The value is an array. -/
def isArr : Json → Bool
  | .arr _ => true
  | _ => false

/-- The field of an object. -/
def get? (key : String) : Json → Option Json
  | .obj fields => Ordered.get? key fields
  | _ => none

/-- The text of a string value. -/
def str? : Json → Option String
  | .str s => some s
  | _ => none

/-- The truth value of a boolean. -/
def bool? : Json → Option Bool
  | .bool b => some b
  | _ => none

/-- The nearest double of a number. -/
def float? : Json → Option Float
  | .num n => some n.toFloat
  | _ => none

/-- A number that is a signed 64-bit integer. -/
def int64? : Json → Option Int
  | .num n => n.toInt64?
  | _ => none

/-- A number that is a count. -/
def nat? : Json → Option Nat
  | .num n => n.toNat?
  | _ => none

/-- The items of an array. -/
def arr? : Json → Option (List Json)
  | .arr items => some items
  | _ => none

/-- The fields of an object. -/
def obj? : Json → Option Fields
  | .obj fields => some fields
  | _ => none

/-- The items of an array, or the value alone. -/
def asList : Json → List Json
  | .arr items => items
  | value => [value]

end Json

end Snowbank
