import Snowbank.Expr.Basic

/-!
# Missing Values

For every expression there is one that says when it has no value, and which
reads only the same fields.

The text between two others has no such test of its own: its test is that of
the simpler expression it stands for. What to do there is left open here, so
that simplifying can use the tests of everything else.
-/

namespace Snowbank.Expr

/-- The test for operators on one operand, from that of the operand. -/
def Unary.missing (op : Unary) (operand : Expr) : Expr :=
  match op with
  | .not | .missing | .present | .isType _ | .convert .boolean => no
  | .first | .last | .length | .convert _ => operand

/-- Nothing is found: the text, or what is sought, is missing or does not occur. -/
def notFound (textMissing needleMissing text needle start : Expr) : Expr :=
  or [textMissing, needleMissing, binary .basicEq (indexOf text needle start) (int (-1))]

mutual

/-- The expression that is true when `e` has no value, with `onBetween` giving the
    test of a text between two others. -/
def missingWith (onBetween : Expr → Expr) : Expr → Expr
  | const value => const (.bool value.isNull)
  | date _ => no
  | var path type => if path == Path.root then no else unary .missing (var path type)
  | offset i => unary .missing (offset i)
  | script sql => unary .missing (script sql)
  | leaves _ => no
  | rows path shift => unary .missing (rows path shift)
  | unary op x => Unary.missing op (missingWith onBetween x)
  | binary op a b =>
    match op with
    | .get => unary .missing (binary .get a b)
    | .split => missingWith onBetween a
    | .side _ => or [missingWith onBetween a, missingWith onBetween b]
    | _ => no
  | nary op terms =>
    match op with
    | .coalesce | .min | .max => and (missingAll onBetween terms)
    | _ => no
  | when cond x y =>
    or [and [cond, missingWith onBetween x], and [not cond, missingWith onBetween y]]
  | case clauses other => missingCase onBetween clauses (missingWith onBetween other)
  | member _ _ | matching _ _ | range _ _ => no
  | arith op a b other =>
    let zero := if op.divides then [binary .eq b (int 0)] else []
    and [or ([missingWith onBetween a, missingWith onBetween b] ++ zero),
      missingWith onBetween other]
  | fold _ terms nulls other =>
    let tests := missingAll onBetween terms
    and [if nulls then and tests else or tests, missingWith onBetween other]
  | concat terms _ other => and [and (missingAll onBetween terms), missingWith onBetween other]
  | find text needle start other =>
    and [notFound (missingWith onBetween text) (missingWith onBetween needle) text needle start,
      missingWith onBetween other]
  | between text opening closing start other => onBetween (between text opening closing start other)
  | select _ => no
  | indexOf _ _ _ => no
  | substring text _ _ => missingWith onBetween text

/-- The tests of several expressions. -/
def missingAll (onBetween : Expr → Expr) : List Expr → List Expr
  | [] => []
  | x :: xs => missingWith onBetween x :: missingAll onBetween xs

/-- The test of clauses, given that of the other value. -/
def missingCase (onBetween : Expr → Expr) : List (Expr × Expr) → Expr → Expr
  | [], other => other
  | (cond, x) :: rest, other =>
    or [and [cond, missingWith onBetween x], and [not cond, missingCase onBetween rest other]]

end

/-- The test for expressions that hold no text between two others. -/
def missingPlain (e : Expr) : Expr :=
  missingWith (unary .missing) e

/-- The expression that is true when `e`, which holds no text between two others, has a value. -/
def presentPlain (e : Expr) : Expr :=
  not (missingPlain e)

end Snowbank.Expr
