import Snowbank.DataType

/-!
# Operators

The operators that expressions are built with, grouped by how many operands
they take.
-/

namespace Snowbank

/-- An order comparison. -/
inductive Inequality where
  | gt
  | gte
  | lt
  | lte
  deriving DecidableEq, Repr

namespace Inequality

/-- The name of a comparison. -/
def name : Inequality → String
  | gt => "gt"
  | gte => "gte"
  | lt => "lt"
  | lte => "lte"

/-- The comparison with a name. -/
def ofName? : String → Option Inequality
  | "gt" => some gt
  | "gte" => some gte
  | "lt" => some lt
  | "lte" => some lte
  | _ => none

/-- The comparison that holds exactly when this one does not. -/
def negate : Inequality → Inequality
  | gt => lte
  | gte => lt
  | lt => gte
  | lte => gt

/-- The comparison as an SQL operator. -/
def sign : Inequality → String
  | gt => ">"
  | gte => ">="
  | lt => "<"
  | lte => "<="

/-- The comparison holds of two values in the given order. -/
def holds : Inequality → Ordering → Bool
  | gt, o => o == .gt
  | gte, o => o != .lt
  | lt, o => o == .lt
  | lte, o => o != .gt

end Inequality

/-- Arithmetic on two numbers. -/
inductive Arith where
  | sub
  | div
  | mod
  | exp
  | floor
  deriving DecidableEq, Repr

namespace Arith

def name : Arith → String
  | sub => "sub"
  | div => "div"
  | mod => "mod"
  | exp => "exp"
  | floor => "floor"

/-- The operator divides by its second operand. -/
def divides : Arith → Bool
  | div | mod | floor => true
  | _ => false

end Arith

/-- Arithmetic on any count of numbers. -/
inductive Fold where
  | add
  | mul
  deriving DecidableEq, Repr

namespace Fold

def name : Fold → String
  | add => "add"
  | mul => "mul"

/-- The number that changes no result. -/
def identity : Fold → Float
  | add => 0.0
  | mul => 1.0

end Fold

/-- Which end of a text to keep or to drop. -/
inductive Side where
  | left
  | right
  | notLeft
  | notRight
  deriving DecidableEq, Repr

def Side.name : Side → String
  | .left => "left"
  | .right => "right"
  | .notLeft => "not_left"
  | .notRight => "not_right"

/-- Operators on one operand. -/
inductive Unary where
  | not
  | missing
  | present
  | first
  | last
  | length
  /-- The operand as a value of a scalar type. -/
  | convert (type : DataType)
  /-- The operand is a value of a scalar type. -/
  | isType (type : DataType)
  deriving DecidableEq, Repr

def Unary.name : Unary → String
  | not => "not"
  | missing => "missing"
  | present => "exists"
  | first => "first"
  | last => "last"
  | length => "length"
  | convert t => t.name
  | isType t => "is_" ++ t.name

/-- Operators on two operands. Those called basic are meant for operands that
    are known to be there. -/
inductive Binary where
  | eq
  | ne
  | compare (op : Inequality)
  | side (op : Side)
  | split
  | startsWith
  | endsWith
  | get
  | basicEq
  | basicCompare (op : Inequality)
  deriving DecidableEq, Repr

def Binary.name : Binary → String
  | eq => "eq"
  | ne => "ne"
  | compare op => op.name
  | side op => op.name
  | split => "split"
  | startsWith => "prefix"
  | endsWith => "suffix"
  | get => "get"
  | basicEq => "basic.eq"
  | basicCompare op => "basic." ++ op.name

/-- Operators on any count of operands. -/
inductive Nary where
  | and
  | or
  | coalesce
  | min
  | max
  | count
  | tuple
  deriving DecidableEq, Repr

def Nary.name : Nary → String
  | .and => "and"
  | .or => "or"
  | .coalesce => "coalesce"
  | .min => "min"
  | .max => "max"
  | .count => "count"
  | .tuple => "tuple"

end Snowbank
