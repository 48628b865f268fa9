import Snowbank.Json.Basic

/-!
# Data Types

The types that JSON values and expressions have, and how they are stored.

`integer` refines `number`, and both are stored as numbers. `nested` is the
type of an array of documents, which has a table of its own, and `exists` is
the type of the column that counts how many documents such an array holds.
-/

namespace Snowbank

/-- The type of a JSON value, of a column or of an expression. -/
inductive DataType where
  | null
  | boolean
  | integer
  | number
  | string
  | object
  | nested
  | presence
  deriving DecidableEq, Ord, Repr, Inhabited

namespace DataType

def name : DataType → String
  | null => "null"
  | boolean => "boolean"
  | integer => "integer"
  | number => "number"
  | string => "string"
  | object => "object"
  | nested => "nested"
  | presence => "exists"

/-- Every type, in order. -/
def all : List DataType :=
  [null, boolean, integer, number, string, object, nested, presence]

def ofName? (text : String) : Option DataType :=
  all.find? fun t => t.name == text

/-- The letter that stands for the stored type in a column name. -/
def tag : DataType → Char
  | boolean => 'b'
  | integer | number => 'n'
  | string => 's'
  | null | object => 'j'
  | nested => 'N'
  | presence => 'e'

/-- The stored type with a letter. -/
def ofTag? : Char → Option DataType
  | 'b' => some boolean
  | 'n' => some number
  | 's' => some string
  | 'j' => some object
  | 'N' => some nested
  | 'e' => some presence
  | _ => none

/-- The type under which values of a type are stored. -/
def storage : DataType → DataType
  | integer => number
  | null => object
  | t => t

/-- Booleans, numbers and strings. -/
def isScalar : DataType → Bool
  | boolean | integer | number | string => true
  | _ => false

/-- Integers and numbers. -/
def isNumeric : DataType → Bool
  | integer | number => true
  | _ => false

/-- The most specific type of a value. An array without items is as good as no value at all. -/
def ofJson : Json → DataType
  | .null => null
  | .bool _ => boolean
  | .num (.int _) => integer
  | .num (.float _) => number
  | .str _ => string
  | .arr [] => null
  | .arr _ => nested
  | .obj _ => object

/-- The least type that covers two types. Scalars widen to strings, an object
    and an array of documents are an array of documents, and a scalar beside
    an object or an array is covered by nothing, which `null` stands for. -/
def merge (a b : DataType) : DataType :=
  if a == b then a
  else
    match a, b with
    | null, t | t, null => t
    | presence, t | t, presence => t
    | integer, number | number, integer => number
    | object, nested | nested, object => nested
    | s, t => if s.isScalar && t.isScalar then string else null

/-- Widen `seen` by further types; `object` as soon as nothing covers them. -/
def unionFrom (seen : DataType) : List DataType → DataType
  | [] => seen
  | null :: rest => unionFrom seen rest
  | t :: rest =>
    match merge seen t with
    | null => object
    | wide => unionFrom wide rest

/-- The least type that covers the types of several alternatives, of which
    those without a value do not count; `object` when nothing covers them. -/
def union (types : List DataType) : DataType :=
  match types.filter (· != null) with
  | [] => null
  | t :: rest => unionFrom t rest

end DataType

end Snowbank
