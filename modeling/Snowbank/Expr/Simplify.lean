import Snowbank.Expr.Eval
import Snowbank.Expr.Missing
import Snowbank.Schema

/-!
# Simplifying

Simplifying brings an expression into the shape that can be turned into SQL:
constants are folded, negations stand at the leaves, a conjunction of
alternatives becomes alternatives of conjunctions where that stays small,
comparisons and operations on text are spelled out in basic ones with tests
for missing operands, and variables have the types that the schema stores.

A pass simplifies the operands, then folds or reduces the node. What a
rule gives may have to be simplified again. Passes are repeated until nothing
changes. Nothing in the rules bounds how often that is: a pass is a function
that may have no result.
-/

namespace Snowbank.Expr

/-- Conjunctions are not multiplied out into more alternatives than this. -/
def maxAlternatives : Nat := 32

/-- The most passes. -/
def maxPasses : Nat := 1024

/-- What a rule makes of a node: an expression in simple form, or one that is
    to be simplified again. -/
inductive Reduct where
  | done (e : Expr)
  | again (e : Expr)

/-- A variable with the type stored at its path. Where several scalar types are stored, there is a
    variable for each, and where nothing is stored there is no value. -/
def bind (schema : Schema) (path : Path) (type : DataType) : Expr :=
  if path == Path.root then var path type
  else
    match schema.typesAt path with
    | none => var path type
    | some [] => if schema.hasDescendants path then var path .object else null
    | some types =>
      if type.isScalar && types.contains type.storage then var path type
      else if types.length > 1 && types.all DataType.isScalar then
        coalesce (types.map (var path))
      else var path (.union types)

/-- The variables of a field that has several types, or the expression. -/
def branches (e : Expr) : List Expr :=
  e.alternatives?.getD [e]

/-- Values of two scalar types are never equal. -/
def incompatible (a b : DataType) : Bool :=
  a.isScalar && b.isScalar && a != b && !(a.isNumeric && b.isNumeric)

/-- Put a term at the end, unless it is there. -/
def pushNew (terms : List Expr) (e : Expr) : List Expr :=
  if terms.contains e then terms else terms ++ [e]

/-- The negation of a term, without a double one. -/
def negated : Expr → Expr
  | not x => x
  | x => not x

def isNull : Expr → Bool
  | null => true
  | _ => false

/-- The terms of a conjunction in a row, or nothing if one is never true. -/
def conjuncts? : List Expr → List Expr → Option (List Expr)
  | [], seen => some seen
  | yes :: rest, seen => conjuncts? rest seen
  | no :: _, _ => none
  | null :: _, _ => none
  | and inner :: rest, seen => conjuncts? rest (inner.foldl pushNew seen)
  | e :: rest, seen => conjuncts? rest (pushNew seen e)

/-- The terms of a disjunction in a row, or nothing if one is always true. -/
def disjuncts? : List Expr → List Expr → Option (List Expr)
  | [], seen => some seen
  | no :: rest, seen => disjuncts? rest seen
  | null :: rest, seen => disjuncts? rest seen
  | yes :: _, _ => none
  | or inner :: rest, seen => disjuncts? rest (inner.foldl pushNew seen)
  | e :: rest, seen => disjuncts? rest (pushNew seen e)

/-- A term stands beside its negation. -/
def clashes (terms : List Expr) : Bool :=
  terms.any fun t => terms.contains (negated t)

/-- The terms of a disjunction. -/
def alternativesOf? : Expr → Option (List Expr)
  | or terms => some terms
  | _ => none

/-- The number of ways to take one alternative of each term, as a number of 64 bits. -/
def ways (terms : List Expr) : Nat :=
  (terms.filterMap alternativesOf?).foldl (fun n alts => n * alts.length % UInt64.size) 1

/-- The terms hold alternatives, and few enough of them to be multiplied out. -/
def multiplies (terms : List Expr) : Bool :=
  !(terms.filterMap alternativesOf?).isEmpty && ways terms ≤ maxAlternatives

/-- All ways to take one alternative of each term. -/
def multiplyOut : List Expr → List (List Expr) → List (List Expr)
  | [], chosen => chosen
  | or alts :: rest, chosen =>
    multiplyOut rest (chosen.flatMap fun terms => alts.map fun alt => terms ++ [alt])
  | e :: rest, chosen => multiplyOut rest (chosen.map (· ++ [e]))

/-- Simplify a conjunction. -/
def reduceAnd (terms : List Expr) : Reduct :=
  match conjuncts? terms [] with
  | none => .done no
  | some terms =>
    if clashes terms then .done no
    else
      match terms with
      | [] => .done yes
      | [e] => .done e
      | terms =>
        if multiplies terms then .again (or ((multiplyOut terms [[]]).map and))
        else .done (and terms)

/-- Simplify a disjunction. -/
def reduceOr (terms : List Expr) : Expr :=
  match disjuncts? terms [] with
  | none => yes
  | some terms =>
    if clashes terms then yes
    else
      match terms with
      | [] => no
      | [e] => e
      | terms => or terms

/-- A value of the type counts as true when it is there. -/
def countsWhenPresent (type : DataType) : Bool :=
  (type.isScalar && type != .boolean) || type == .nested

/-- Simplify a negation. A value that is not a truth value counts as true when it is there. -/
def reduceNot : Expr → Reduct
  | yes => .done no
  | no => .done yes
  | null => .done yes
  | not x => .done x
  | and terms => .again (or (terms.map not))
  | or terms => .again (and (terms.map not))
  | binary (.basicCompare op) a b => .done (binary (.basicCompare op.negate) a b)
  | x => if countsWhenPresent x.dataType then .again (missingPlain x) else .done (not x)

/-- Simplify a choice. A choice between truth values is a disjunction. -/
def reduceWhen (cond x y : Expr) : Reduct :=
  match cond with
  | yes => .done x
  | no => .done y
  | null => .done y
  | cond =>
    if x == y then .done x
    else if x.dataType == .boolean && y.dataType == .boolean then
      .again (or [and [cond, x], and [not cond, y]])
    else .done (when cond x y)

/-- Drop the clauses that are never taken, and those after one that always is. -/
def liveClauses (other : Expr) : List (Expr × Expr) → List (Expr × Expr) × Expr
  | [] => ([], other)
  | (no, _) :: rest => liveClauses other rest
  | (null, _) :: rest => liveClauses other rest
  | (yes, x) :: _ => ([], x)
  | (cond, x) :: rest =>
    let (clauses, other) := liveClauses other rest
    ((cond, x) :: clauses, other)

/-- Simplify a choice of several clauses. -/
def reduceCase (clauses : List (Expr × Expr)) (other : Expr) : Reduct :=
  let (clauses, other) := liveClauses other clauses
  if clauses.all fun (_, x) => x == other then .done other
  else
    match clauses with
    | [(cond, x)] => .again (when cond x other)
    | clauses => .done (case clauses other)

/-- The pairs of variables of two fields that can be compared, each with the
    tests that both have a value. -/
def pairings (a b : Expr) (compare : Expr → Expr → Expr) : List Expr :=
  a.branches.flatMap fun x =>
    b.branches.filterMap fun y =>
      if incompatible x.dataType y.dataType then none
      else some (and [presentPlain x, presentPlain y, compare x y])

/-- Simplify an equality: both sides are missing, or both are there and equal. -/
def reduceEq (a b : Expr) : Reduct :=
  if a.isNull then .again (missingPlain b)
  else if b.isNull then .again (missingPlain a)
  else if a == b then .done yes
  else
    let bothMissing := and [missingPlain a, missingPlain b]
    if a.alternatives?.isSome || b.alternatives?.isSome then
      .again (or (bothMissing :: pairings a b (binary .basicEq)))
    else if incompatible a.dataType b.dataType then .again bothMissing
    else
      .again (case [(missingPlain a, missingPlain b), (missingPlain b, no)] (binary .basicEq a b))

/-- Simplify a membership test. -/
def reduceMember (x : Expr) (set : List Json) : Reduct :=
  match set with
  | [] => .done no
  | set =>
    if set.any Json.isNull then
      .again (or [missingPlain x, member x (set.filter (!·.isNull))])
    else
      match set with
      | [value] => .again (binary .eq x (const value))
      | set =>
        match x.alternatives? with
        | some terms => .again (or (terms.map fun t => member t set))
        | none => .done (member x set)

/-- The terms of nested choices in a row. -/
def flatTerms : List Expr → List Expr
  | [] => []
  | coalesce inner :: rest => inner ++ flatTerms rest
  | e :: rest => e :: flatTerms rest

/-- The terms that can be the first with a value, in order and each once. -/
def candidates : List Expr → List Expr → List Expr
  | [], seen => seen
  | e :: rest, seen =>
    if e.isNull then candidates rest seen
    else if missingPlain e == no then pushNew seen e
    else candidates rest (pushNew seen e)

/-- Simplify the choice of the first term with a value. -/
def reduceCoalesce (terms : List Expr) : Expr :=
  match candidates (flatTerms terms) [] with
  | [] => null
  | [e] => e
  | terms => coalesce terms

/-- Convert to a type, unless the value is of that type. -/
def convertOnce (type : DataType) (x : Expr) : Expr :=
  let t := x.dataType
  if t == type || (type == .number && t == .integer) then x else unary (.convert type) x

def reduceConvert (type : DataType) (x : Expr) : Reduct :=
  if type == .boolean then
    if x.dataType == .boolean then .done x else .again (presentPlain x)
  else
    match x with
    | coalesce terms => .again (coalesce (terms.map (unary (.convert type))))
    | x => .done (convertOnce type x)

/-- Simplify a test of the type of a value. -/
def reduceIsType (type : DataType) (x : Expr) : Reduct :=
  match x.alternatives? with
  | some terms => .again (or (terms.map (unary (.isType type))))
  | none =>
    let t := x.dataType
    if !t.isScalar && t != .nested then .done (unary (.isType type) x)
    else if t == type || (type == .number && t == .integer) then .again (presentPlain x)
    else if type == .integer && t == .number then .done (unary (.isType type) x)
    else .done no

/-- Simplify an operator on one operand. -/
def reduceUnary (op : Unary) (x : Expr) : Reduct :=
  match op with
  | .not => reduceNot x
  | .missing =>
    let test := missingPlain x
    if test == unary .missing x then .done (unary .missing x) else .again test
  | .present => .again (not (unary .missing x))
  | .first => .done (if x.isMany then unary .first x else x)
  | .last => .done (if x.isMany then unary .last x else x)
  | .length => .done (unary .length x)
  | .convert type => reduceConvert type x
  | .isType type => reduceIsType type x

/-- An end of a text, in basic operations. -/
def lowerSide (op : Side) (text count : Expr) : Expr :=
  let size := length text
  let clamped := nary .max [int 0, nary .min [count, size]]
  let fromEnd := nary .max [int 0, sub size count]
  let body :=
    match op with
    | .left => substring text (int 0) clamped
    | .right => substring text fromEnd size
    | .notLeft => substring text clamped size
    | .notRight => substring text (int 0) fromEnd
  when (or [missingPlain text, missingPlain count]) null body

/-- The text between two others, in basic operations. -/
def lowerBetween (text opening closing start other : Expr) : Expr :=
  let opened := indexOf text opening start
  let begin := if opening.isNull then start else plus opened (length opening)
  let closed := indexOf text closing begin
  let stop := if closing.isNull then length text else closed
  let failed (side found : Expr) : List Expr :=
    if side.isNull then [] else [binary .basicEq found (int (-1))]
  when (or ([missingPlain text] ++ failed opening opened ++ failed closing closed)) other
    (substring text begin stop)

/-- A text begins or ends with another one, in basic operations. -/
def lowerAffix (text affix part : Expr) : Expr :=
  or [missingPlain affix, and [presentPlain text, binary .basicEq part affix]]

/-- Simplify an operator on two operands. -/
def reduceBinary (op : Binary) (a b : Expr) : Reduct :=
  match op with
  | .eq => reduceEq a b
  | .ne => .again (not (binary .eq a b))
  | .compare o =>
    if a.isNull || b.isNull then .done no
    else .again (or (pairings a b (binary (.basicCompare o))))
  | .side o => .again (lowerSide o a b)
  | .startsWith => .again (lowerAffix a b (substring a (int 0) (length b)))
  | .endsWith =>
    .again (lowerAffix a b
      (substring a (nary .max [int 0, sub (length a) (length b)]) (length a)))
  | .get =>
    match a, b with
    | nary .tuple terms, const (.num n) => .done ((n.toNat?.bind fun i => terms[i]?).getD null)
    | var path _, const (.str key) => .again (field (path.append key))
    | a, b => .done (binary .get a b)
  | .split => .done (binary .split a b)
  | .basicEq => .done (binary .basicEq a b)
  | .basicCompare o => .done (binary (.basicCompare o) a b)

/-- The terms without null, each once. -/
def distinctTerms (terms : List Expr) : List Expr :=
  (terms.filter (!·.isNull)).foldl pushNew []

/-- Simplify the least or the greatest of several numbers. -/
def reduceExtreme (op : Nary) (terms : List Expr) : Expr :=
  match distinctTerms terms with
  | [e] => if e.dataType.isNumeric then e else nary op [e]
  | terms => nary op terms

/-- Simplify an operator on any count of operands. -/
def reduceNary (op : Nary) (terms : List Expr) : Reduct :=
  match op with
  | .and => reduceAnd terms
  | .or => .done (reduceOr terms)
  | .coalesce => .done (reduceCoalesce terms)
  | .min => .done (reduceExtreme .min terms)
  | .max => .done (reduceExtreme .max terms)
  | .count => .done (nary .count (terms.filter (!·.isNull)))
  | .tuple => .done (nary .tuple terms)

/-- The term is a constant that changes no result. -/
def isIdentity (op : Fold) (e : Expr) : Bool :=
  match e.constant?.bind Json.float? with
  | some x => x == op.identity
  | none => false

/-- Simplify a sum or a product. -/
def reduceFold (op : Fold) (terms : List Expr) (nulls : Bool) (other : Expr) : Reduct :=
  if !other.isNull then .again (coalesce [fold op terms nulls null, other])
  else
    match terms.filter (!isIdentity op ·) with
    | [] => .done (const (.ofFloat op.identity))
    | [e] => .done (if e.dataType.isNumeric then e else fold op [e] nulls null)
    | terms => .done (fold op terms nulls null)

/-- The rules for one node, whose operands are simple. -/
def reduce : Expr → Reduct
  | unary op x => reduceUnary op x
  | binary op a b => reduceBinary op a b
  | nary op terms => reduceNary op terms
  | when cond x y => reduceWhen cond x y
  | case clauses other => reduceCase clauses other
  | member x set => reduceMember x set
  | range x bounds => .again (and (bounds.map fun (op, b) => binary (.compare op) x b))
  | arith op a b other =>
    if other.isNull then .done (arith op a b other)
    else .again (coalesce [arith op a b null, other])
  | fold op terms nulls other => reduceFold op terms nulls other
  | concat terms separator other =>
    if !other.isNull then .again (coalesce [concat terms separator null, other])
    else .done (concat (terms.filter (!·.isNull)) separator null)
  | find text needle start other =>
    .again (when (notFound (missingPlain text) (missingPlain needle) text needle start) other
      (indexOf text needle start))
  | between text opening closing start other =>
    .again (lowerBetween text opening closing start other)
  | e => .done e

/-- The value of the node is known once its operands are constants. -/
def isFoldable : Expr → Bool
  | const _ | date _ | var _ _ | offset _ | script _ | leaves _ | rows _ _ | select _ => false
  | nary .tuple _ => false
  | _ => true

/-- Fold a node whose operands are simple, or apply the rules to it. -/
def rewrite (e : Expr) : Reduct :=
  if e.isFoldable && e.children.all isConstant then .done (const (e.evaluate .null))
  else e.reduce

mutual

/-- One pass, if it has a result. -/
def pass? (schema : Schema) (e : Expr) : Option Expr :=
  match e with
  | var path type => some (bind schema path type)
  | rows path 0 => some (bind schema path .object)
  | e => do
    match (← e |>.passOperands? schema).rewrite with
    | .done simple => return simple
    | .again next => next |>.pass? schema
partial_fixpoint

/-- A pass over every operand of a node. -/
def passOperands? (schema : Schema) (e : Expr) : Option Expr :=
  match e with
  | unary op x => do return unary op (← x |>.pass? schema)
  | binary op a b => do return binary op (← a |>.pass? schema) (← b |>.pass? schema)
  | nary op terms => do return nary op (← terms.mapM fun t => t |>.pass? schema)
  | when a b c => do return when (← a |>.pass? schema) (← b |>.pass? schema) (← c |>.pass? schema)
  | case clauses other => do
    return case (← clauses.mapM fun (c, v) => do return (← c |>.pass? schema, ← v |>.pass? schema))
      (← other |>.pass? schema)
  | member x set => do return member (← x |>.pass? schema) set
  | matching x pattern => do return matching (← x |>.pass? schema) pattern
  | range x bounds => do
    return range (← x |>.pass? schema)
      (← bounds.mapM fun (op, b) => do return (op, ← b |>.pass? schema))
  | arith op a b other => do
    return arith op (← a |>.pass? schema) (← b |>.pass? schema) (← other |>.pass? schema)
  | fold op terms nulls other => do
    return fold op (← terms.mapM fun t => t |>.pass? schema) nulls (← other |>.pass? schema)
  | concat terms separator other => do
    return concat (← terms.mapM fun t => t |>.pass? schema) separator (← other |>.pass? schema)
  | find a b c other => do
    return find (← a |>.pass? schema) (← b |>.pass? schema) (← c |>.pass? schema)
      (← other |>.pass? schema)
  | between a b c d other => do
    return between (← a |>.pass? schema) (← b |>.pass? schema) (← c |>.pass? schema)
      (← d |>.pass? schema) (← other |>.pass? schema)
  | select fields => do
    return select (← fields.mapM fun (n, v) => do return (n, ← v |>.pass? schema))
  | indexOf a b c => do
    return indexOf (← a |>.pass? schema) (← b |>.pass? schema) (← c |>.pass? schema)
  | substring a b c => do
    return substring (← a |>.pass? schema) (← b |>.pass? schema) (← c |>.pass? schema)
  | leaf => some leaf
partial_fixpoint

end

/-- Repeat passes until nothing changes, but not more often than given. -/
def settle? (schema : Schema) : Nat → Expr → Option Expr
  | 0, e => some e
  | n + 1, e => do
    let next ← pass? schema e
    if next == e then return e else settle? schema n next

/-- The expression in simple form, with the types that the schema stores. One
    on which passes have no result stays as it is. -/
def simplify (schema : Schema) (e : Expr) : Expr :=
  ((pass? schema e).bind (settle? schema (maxPasses - 1))).getD e

/-- The expression that is true when `e` has no value. -/
def missing (e : Expr) : Expr :=
  missingWith (fun between => missingPlain (simplify .untyped between)) e

/-- The expression that is true when `e` has a value. -/
def present (e : Expr) : Expr :=
  not (missing e)

end Snowbank.Expr
