import Snowbank.Expr.Operator
import Snowbank.Path

/-!
# Expressions

Expressions over the fields of a document: filters, values to select, keys to
group and sort by.

An expression is a finite tree. Constants are JSON values, so null, true and
false are constants like any other. A variable names a path, and has the type
`object` until a schema says which type is stored there.
-/

namespace Snowbank

/-- An expression. -/
inductive Expr where
  | const (value : Json)
  /-- A moment, in seconds since the beginning of 1970. -/
  | date (seconds : Float)
  | var (path : Path) (type : DataType)
  /-- An item of a row that is an array. -/
  | offset (index : Nat)
  /-- SQL text, taken as it is. -/
  | script (sql : String)
  /-- The object of all values beneath a path. -/
  | leaves (path : Path)
  /-- A value of another row of a window. -/
  | rows (path : Path) (shift : Int)
  | unary (op : Unary) (x : Expr)
  | binary (op : Binary) (a b : Expr)
  | nary (op : Nary) (terms : List Expr)
  | when (cond yes no : Expr)
  | case (clauses : List (Expr × Expr)) (other : Expr)
  /-- The value is one of a set of constants. -/
  | member (x : Expr) (set : List Json)
  /-- The value is a text that matches a pattern. -/
  | matching (x : Expr) (pattern : String)
  | range (x : Expr) (bounds : List (Inequality × Expr))
  /-- Arithmetic, or `other` where it has no result. -/
  | arith (op : Arith) (a b other : Expr)
  /-- Sums and products. With `nulls`, terms without a value are skipped. -/
  | fold (op : Fold) (terms : List Expr) (nulls : Bool) (other : Expr)
  | concat (terms : List Expr) (separator : String) (other : Expr)
  /-- The position of one text in another. -/
  | find (text needle start other : Expr)
  /-- The text between two others. -/
  | between (text opening closing start other : Expr)
  | select (fields : List (String × Expr))
  /-- The position of one text in another, or -1; for operands known to be there. -/
  | indexOf (text needle start : Expr)
  /-- The characters between two positions; for operands known to be there. -/
  | substring (text start stop : Expr)
  deriving Inhabited

namespace Expr

/-- No value. -/
@[match_pattern] abbrev null : Expr := const .null

/-- The constant true. -/
@[match_pattern] abbrev yes : Expr := const (.bool true)

/-- The constant false. -/
@[match_pattern] abbrev no : Expr := const (.bool false)

/-- The variable of a path that no schema has typed yet. -/
def field (path : Path) : Expr := var path .object

/-- A whole number. -/
def int (n : Int) : Expr := const (.int n)

/-- All terms are true. -/
@[match_pattern] abbrev and (terms : List Expr) : Expr := nary .and terms

/-- Some term is true. -/
@[match_pattern] abbrev or (terms : List Expr) : Expr := nary .or terms

/-- The first term that has a value. -/
@[match_pattern] abbrev coalesce (terms : List Expr) : Expr := nary .coalesce terms

/-- The operand is not true. -/
@[match_pattern] abbrev not (x : Expr) : Expr := unary .not x

/-- The length of a text. -/
abbrev length (x : Expr) : Expr := unary .length x

/-- The difference of two numbers. -/
abbrev sub (a b : Expr) : Expr := arith .sub a b null

/-- The sum of two numbers. -/
abbrev plus (a b : Expr) : Expr := fold .add [a, b] false null

mutual

/-- Two trees are equal. -/
def beq : Expr → Expr → Bool
  | const v, const w => v == w
  | date x, date y => x == y
  | var p s, var q t => p == q && s == t
  | offset i, offset j => i == j
  | script s, script t => s == t
  | leaves p, leaves q => p == q
  | rows p i, rows q j => p == q && i == j
  | unary o x, unary o' y => o == o' && beq x y
  | binary o a b, binary o' c d => o == o' && beq a c && beq b d
  | nary o xs, nary o' ys => o == o' && beqList xs ys
  | when a b c, when d e f => beq a d && beq b e && beq c f
  | case cs x, case ds y => beqClauses cs ds && beq x y
  | member x s, member y t => beq x y && s == t
  | matching x p, matching y q => beq x y && p == q
  | range x bs, range y cs => beq x y && beqBounds bs cs
  | arith o a b c, arith o' d e f => o == o' && beq a d && beq b e && beq c f
  | fold o xs n x, fold o' ys m y => o == o' && beqList xs ys && n == m && beq x y
  | concat xs s x, concat ys t y => beqList xs ys && s == t && beq x y
  | find a b c d, find e f g h => beq a e && beq b f && beq c g && beq d h
  | between a b c d e, between f g h i j =>
    beq a f && beq b g && beq c h && beq d i && beq e j
  | select xs, select ys => beqFields xs ys
  | indexOf a b c, indexOf d e f => beq a d && beq b e && beq c f
  | substring a b c, substring d e f => beq a d && beq b e && beq c f
  | _, _ => false

/-- Two lists of trees are equal. -/
def beqList : List Expr → List Expr → Bool
  | [], [] => true
  | x :: xs, y :: ys => beq x y && beqList xs ys
  | _, _ => false

/-- Two lists of clauses are equal. -/
def beqClauses : List (Expr × Expr) → List (Expr × Expr) → Bool
  | [], [] => true
  | (a, x) :: xs, (b, y) :: ys => beq a b && beq x y && beqClauses xs ys
  | _, _ => false

/-- Two lists of bounds are equal. -/
def beqBounds : List (Inequality × Expr) → List (Inequality × Expr) → Bool
  | [], [] => true
  | (o, x) :: xs, (o', y) :: ys => o == o' && beq x y && beqBounds xs ys
  | _, _ => false

/-- Two lists of fields are equal. -/
def beqFields : List (String × Expr) → List (String × Expr) → Bool
  | [], [] => true
  | (n, x) :: xs, (m, y) :: ys => n == m && beq x y && beqFields xs ys
  | _, _ => false

end

instance : BEq Expr := ⟨beq⟩

/-- The value of an expression that reads nothing and computes nothing. -/
def constant? : Expr → Option Json
  | const value => some value
  | date seconds => some (.ofFloat seconds)
  | _ => none

/-- The expression reads nothing and computes nothing. -/
def isConstant (e : Expr) : Bool := e.constant?.isSome

def Unary.resultType (operand : DataType) : Unary → DataType
  | .not | .missing | .present | .isType _ => .boolean
  | .first | .last => operand
  | .length => .integer
  | .convert t => t

/-- The type of the results of an operator on two operands. -/
def Binary.resultType : Binary → DataType
  | .side _ | .split => .string
  | .get => .object
  | _ => .boolean

/-- The type of the results of an operator on any count of operands. -/
def Nary.resultType (operands : List DataType) : Nary → DataType
  | .and | .or => .boolean
  | .coalesce => DataType.union operands
  | .min | .max => if operands.all (· == .integer) then .integer else .number
  | .count => .integer
  | .tuple => .object

mutual

/-- The type of the value of an expression. -/
def dataType : Expr → DataType
  | const value => .ofJson value
  | date _ => .number
  | var _ type => type
  | offset _ | script _ | leaves _ | rows _ _ | select _ => .object
  | unary op x => Unary.resultType (dataType x) op
  | binary op _ _ => Binary.resultType op
  | nary op terms => Nary.resultType (dataTypes terms) op
  | when _ x y => DataType.union [dataType x, dataType y]
  | case clauses other => DataType.union (clauseTypes clauses ++ [dataType other])
  | member _ _ | matching _ _ | range _ _ => .boolean
  | arith _ _ _ _ | fold _ _ _ _ => .number
  | concat _ _ _ | between _ _ _ _ _ | substring _ _ _ => .string
  | find _ _ _ _ | indexOf _ _ _ => .integer

/-- The types of several expressions. -/
def dataTypes : List Expr → List DataType
  | [] => []
  | x :: xs => dataType x :: dataTypes xs

/-- The types of the values of clauses. -/
def clauseTypes : List (Expr × Expr) → List DataType
  | [] => []
  | (_, x) :: xs => dataType x :: clauseTypes xs

end

mutual

/-- The expression may have more than one value. -/
def isMany : Expr → Bool
  | const (.arr _) => true
  | var _ type => type == .nested
  | binary .split _ _ => true
  | when _ x y => isMany x || isMany y
  | case clauses other => anyClauseMany clauses || isMany other
  | nary .coalesce terms => anyMany terms
  | _ => false

/-- One of the expressions may have more than one value. -/
def anyMany : List Expr → Bool
  | [] => false
  | x :: xs => isMany x || anyMany xs

/-- The value of one of the clauses may be more than one. -/
def anyClauseMany : List (Expr × Expr) → Bool
  | [] => false
  | (_, x) :: xs => isMany x || anyClauseMany xs

end

/-- The operands, in a fixed order. -/
def children : Expr → List Expr
  | const _ | date _ | var _ _ | offset _ | script _ | leaves _ | rows _ _ => []
  | unary _ x | member x _ | matching x _ => [x]
  | binary _ a b => [a, b]
  | nary _ terms => terms
  | when a b c => [a, b, c]
  | case clauses other => clauses.flatMap (fun (c, v) => [c, v]) ++ [other]
  | range x bounds => x :: bounds.map Prod.snd
  | arith _ a b other => [a, b, other]
  | fold _ terms _ other => terms ++ [other]
  | concat terms _ other => terms ++ [other]
  | find a b c other => [a, b, c, other]
  | between a b c d other => [a, b, c, d, other]
  | select fields => fields.map Prod.snd
  | indexOf a b c => [a, b, c]
  | substring a b c => [a, b, c]

/-- The same node with every operand replaced. -/
def mapChildren (f : Expr → Expr) : Expr → Expr
  | unary op x => unary op (f x)
  | binary op a b => binary op (f a) (f b)
  | nary op terms => nary op (terms.map f)
  | when a b c => when (f a) (f b) (f c)
  | case clauses other => case (clauses.map fun (c, v) => (f c, f v)) (f other)
  | member x set => member (f x) set
  | matching x pattern => matching (f x) pattern
  | range x bounds => range (f x) (bounds.map fun (op, b) => (op, f b))
  | arith op a b other => arith op (f a) (f b) (f other)
  | fold op terms nulls other => fold op (terms.map f) nulls (f other)
  | concat terms separator other => concat (terms.map f) separator (f other)
  | find a b c other => find (f a) (f b) (f c) (f other)
  | between a b c d other => between (f a) (f b) (f c) (f d) (f other)
  | select fields => select (fields.map fun (n, v) => (n, f v))
  | indexOf a b c => indexOf (f a) (f b) (f c)
  | substring a b c => substring (f a) (f b) (f c)
  | leaf => leaf

mutual

/-- The expression and all expressions beneath it, parents before children and these in order. -/
def nodes : Expr → List Expr
  | unary op x => unary op x :: nodes x
  | binary op a b => binary op a b :: nodes a ++ nodes b
  | nary op terms => nary op terms :: nodesOf terms
  | when a b c => when a b c :: nodes a ++ nodes b ++ nodes c
  | case clauses other => case clauses other :: clauseNodes clauses ++ nodes other
  | member x set => member x set :: nodes x
  | matching x pattern => matching x pattern :: nodes x
  | range x bounds => range x bounds :: nodes x ++ boundNodes bounds
  | arith op a b other => arith op a b other :: nodes a ++ nodes b ++ nodes other
  | fold op terms nulls other => fold op terms nulls other :: nodesOf terms ++ nodes other
  | concat terms separator other =>
    concat terms separator other :: nodesOf terms ++ nodes other
  | find a b c other => find a b c other :: nodes a ++ nodes b ++ nodes c ++ nodes other
  | between a b c d other =>
    between a b c d other :: nodes a ++ nodes b ++ nodes c ++ nodes d ++ nodes other
  | select fields => select fields :: fieldNodes fields
  | indexOf a b c => indexOf a b c :: nodes a ++ nodes b ++ nodes c
  | substring a b c => substring a b c :: nodes a ++ nodes b ++ nodes c
  | leaf => [leaf]

/-- The nodes of several expressions. -/
def nodesOf : List Expr → List Expr
  | [] => []
  | x :: xs => nodes x ++ nodesOf xs

def clauseNodes : List (Expr × Expr) → List Expr
  | [] => []
  | (c, v) :: rest => nodes c ++ nodes v ++ clauseNodes rest

def boundNodes : List (Inequality × Expr) → List Expr
  | [] => []
  | (_, b) :: rest => nodes b ++ boundNodes rest

def fieldNodes : List (String × Expr) → List Expr
  | [] => []
  | (_, v) :: rest => nodes v ++ fieldNodes rest

end

mutual

/-- Collect what nodes give. Nothing is collected beneath a node that gives
    something, be it an empty list. -/
def collect {α : Type} (f : Expr → Option (List α)) : Expr → List α
  | unary op x => (f (unary op x)).getD (collect f x)
  | binary op a b => (f (binary op a b)).getD (collect f a ++ collect f b)
  | nary op terms => (f (nary op terms)).getD (collectAll f terms)
  | when a b c => (f (when a b c)).getD (collect f a ++ collect f b ++ collect f c)
  | case clauses other =>
    (f (case clauses other)).getD (collectClauses f clauses ++ collect f other)
  | member x set => (f (member x set)).getD (collect f x)
  | matching x pattern => (f (matching x pattern)).getD (collect f x)
  | range x bounds => (f (range x bounds)).getD (collect f x ++ collectBounds f bounds)
  | arith op a b other =>
    (f (arith op a b other)).getD (collect f a ++ collect f b ++ collect f other)
  | fold op terms nulls other =>
    (f (fold op terms nulls other)).getD (collectAll f terms ++ collect f other)
  | concat terms separator other =>
    (f (concat terms separator other)).getD (collectAll f terms ++ collect f other)
  | find a b c other =>
    (f (find a b c other)).getD (collect f a ++ collect f b ++ collect f c ++ collect f other)
  | between a b c d other =>
    (f (between a b c d other)).getD
      (collect f a ++ collect f b ++ collect f c ++ collect f d ++ collect f other)
  | select fields => (f (select fields)).getD (collectFields f fields)
  | indexOf a b c => (f (indexOf a b c)).getD (collect f a ++ collect f b ++ collect f c)
  | substring a b c => (f (substring a b c)).getD (collect f a ++ collect f b ++ collect f c)
  | leaf => (f leaf).getD []

/-- Collect from several expressions. -/
def collectAll {α : Type} (f : Expr → Option (List α)) : List Expr → List α
  | [] => []
  | x :: xs => collect f x ++ collectAll f xs

def collectClauses {α : Type} (f : Expr → Option (List α)) : List (Expr × Expr) → List α
  | [] => []
  | (c, v) :: rest => collect f c ++ collect f v ++ collectClauses f rest

def collectBounds {α : Type} (f : Expr → Option (List α)) : List (Inequality × Expr) → List α
  | [] => []
  | (_, b) :: rest => collect f b ++ collectBounds f rest

def collectFields {α : Type} (f : Expr → Option (List α)) : List (String × Expr) → List α
  | [] => []
  | (_, v) :: rest => collect f v ++ collectFields f rest

end

/-- The path that a node itself reads. -/
def path? : Expr → Option Path
  | var path _ | leaves path | rows path _ => some path
  | _ => none

/-- The paths an expression reads, in order and each once. -/
def vars (e : Expr) : List Path :=
  Ordered.elems (e.nodes.filterMap path?)

mutual

/-- Replace the nodes without operands. -/
def mapLeaves (f : Expr → Expr) : Expr → Expr
  | unary op x => unary op (mapLeaves f x)
  | binary op a b => binary op (mapLeaves f a) (mapLeaves f b)
  | nary op terms => nary op (mapLeavesOf f terms)
  | when a b c => when (mapLeaves f a) (mapLeaves f b) (mapLeaves f c)
  | case clauses other => case (mapClauseLeaves f clauses) (mapLeaves f other)
  | member x set => member (mapLeaves f x) set
  | matching x pattern => matching (mapLeaves f x) pattern
  | range x bounds => range (mapLeaves f x) (mapBoundLeaves f bounds)
  | arith op a b other => arith op (mapLeaves f a) (mapLeaves f b) (mapLeaves f other)
  | fold op terms nulls other => fold op (mapLeavesOf f terms) nulls (mapLeaves f other)
  | concat terms separator other => concat (mapLeavesOf f terms) separator (mapLeaves f other)
  | find a b c other =>
    find (mapLeaves f a) (mapLeaves f b) (mapLeaves f c) (mapLeaves f other)
  | between a b c d other =>
    between (mapLeaves f a) (mapLeaves f b) (mapLeaves f c) (mapLeaves f d) (mapLeaves f other)
  | select fields => select (mapFieldLeaves f fields)
  | indexOf a b c => indexOf (mapLeaves f a) (mapLeaves f b) (mapLeaves f c)
  | substring a b c => substring (mapLeaves f a) (mapLeaves f b) (mapLeaves f c)
  | leaf => f leaf

/-- Replace the nodes without operands in several expressions. -/
def mapLeavesOf (f : Expr → Expr) : List Expr → List Expr
  | [] => []
  | x :: xs => mapLeaves f x :: mapLeavesOf f xs

/-- Replace the nodes without operands in clauses. -/
def mapClauseLeaves (f : Expr → Expr) : List (Expr × Expr) → List (Expr × Expr)
  | [] => []
  | (c, v) :: rest => (mapLeaves f c, mapLeaves f v) :: mapClauseLeaves f rest

/-- Replace the nodes without operands in bounds. -/
def mapBoundLeaves (f : Expr → Expr) : List (Inequality × Expr) → List (Inequality × Expr)
  | [] => []
  | (op, b) :: rest => (op, mapLeaves f b) :: mapBoundLeaves f rest

/-- Replace the nodes without operands in fields. -/
def mapFieldLeaves (f : Expr → Expr) : List (String × Expr) → List (String × Expr)
  | [] => []
  | (n, v) :: rest => (n, mapLeaves f v) :: mapFieldLeaves f rest

end

/-- A node without operands, reading another path. -/
def mapPath (f : Path → Path) : Expr → Expr
  | var path type => var (f path) type
  | leaves path => leaves (f path)
  | rows path shift => rows (f path) shift
  | other => other

/-- Read other paths; those not listed stay. -/
def rename (names : List (Path × Path)) (e : Expr) : Expr :=
  e.mapLeaves (mapPath fun path => (Ordered.get? path names).getD path)

/-- A node without operands, with its path put beneath another one. The
    variable of the root stays. -/
def prefixLeaf (above : Path) : Expr → Expr
  | var path type => if path == Path.root then var path type else var (above.append path) type
  | other => mapPath above.append other

/-- Put every path beneath another one. -/
def prefixed (above : Path) (e : Expr) : Expr :=
  e.mapLeaves (prefixLeaf above)

/-- The path and type of a variable. -/
def var? : Expr → Option (Path × DataType)
  | var path type => some (path, type)
  | _ => none

/-- A variable of a scalar type at a path. -/
def isScalarVar (path : Path) : Expr → Bool
  | var p type => p == path && type.isScalar
  | _ => false

/-- The variables of a field that is stored under several scalar types: the
    first of them that has a value is the value of the field. -/
def alternatives? : Expr → Option (List Expr)
  | coalesce (var path type :: x :: rest) =>
    if (var path type :: x :: rest).all (isScalarVar path) then some (var path type :: x :: rest)
    else none
  | _ => none

end Expr

end Snowbank
