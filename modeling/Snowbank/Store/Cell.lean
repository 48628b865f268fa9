import Snowbank.Json.Printer
import Snowbank.Number.Decimal
import Snowbank.Text.Bytes

/-!
# Cells and Parameters

What a store returns, and what is sent to it beside a statement.
-/

namespace Snowbank

/-- A value as a store returns it. -/
inductive Cell where
  | null
  | bool (value : Bool)
  /-- An integer of at most 64 bits, signed or not. -/
  | integer (value : Int)
  /-- An integer of 128 bits. -/
  | huge (value : Int)
  /-- A number to be rounded to single precision. -/
  | single (value : Float)
  | double (value : Float)
  | decimal (digits : String)
  | text (value : String)
  | blob (bytes : List Nat)
  /-- Days since the beginning of 1970. -/
  | date (days : Int)
  | list (items : List Cell)
  | struct (fields : List (String × Cell))
  deriving Inhabited

namespace Cell

/-- A double as JSON; one that is not a number is nothing. -/
def ofDouble (x : Float) : Json := if x.isFinite then .num (.float x) else .null

mutual

/-- The JSON form of a cell. Structs are objects and lists arrays; dates are seconds. -/
def toJson : Cell → Json
  | null => .null
  | bool b => .bool b
  | integer n => .int n
  | huge n =>
    if -0x8000000000000000 ≤ n && n < 0x8000000000000000 then .int n
    else ofDouble (if n < 0 then -(Float.ofNat n.natAbs) else Float.ofNat n.natAbs)
  | single x => ofDouble (toSingle x)
  | double x => ofDouble x
  | decimal digits => ((readFloat? digits).map ofDouble).getD .null
  | text s => .str s
  | blob bytes => .str (Text.ofBytes bytes)
  | date days => .int (days * 86400)
  | list items => .arr (itemsJson items)
  | struct fields => .mkObj (fieldsJson fields)

def itemsJson : List Cell → List Json
  | [] => []
  | item :: rest => toJson item :: itemsJson rest

/-- The JSON forms of the fields of a struct. -/
def fieldsJson : List (String × Cell) → Fields
  | [] => []
  | (key, value) :: rest => (key, toJson value) :: fieldsJson rest

end

end Cell

/-- A value as it is sent to a store. -/
inductive Param where
  | null
  | bool (value : Bool)
  | integer (value : Int)
  | double (value : Float)
  | text (value : String)

/-- The parameter of a JSON value. Arrays and objects are sent as JSON text. -/
def Param.ofJson : Json → Param
  | .null => .null
  | .bool b => .bool b
  | .num n =>
    match n.toInt64? with
    | some i => .integer i
    | none => .double n.toFloat
  | .str s => .text s
  | value => .text value.toText

/-- The rows that a query returns. -/
abbrev Rows := List (List Json)

end Snowbank
