import Snowbank.Moment

/-!
# Errors in Written Expressions

Why a JSON value is not an expression.
-/

namespace Snowbank

/-- Why a JSON value is not an expression. -/
inductive ExprError where
  | noOperator
  | manyOperators (first second : String)
  | unknownOperator (name : String)
  /-- Fields with constants where operands are needed. -/
  | fieldForm (op : String)
  | arity (op expected : String) (actual : Nat)
  | setForm (op : String)
  | rangeForm
  | boundsForm (path : String)
  | caseForm
  | caseOrder
  | betweenForm
  | selectName
  | selectForm (value : Json)
  | scriptForbidden
  | scriptForm
  | offsetForm
  | patternForm
  | leavesForm
  | rowsForm
  | moment (error : MomentError)

namespace ExprError

def kind : ExprError → ErrorKind
  | arity _ _ _ => .arity
  | moment e => e.kind
  | _ => .parse

/-- What is wrong with the expression, for those that are misread. -/
def detail : ExprError → String
  | noOperator => "Expression object has no operator"
  | manyOperators a b => "Expression object has more than one operator: " ++ a ++ ", " ++ b
  | fieldForm op => "Operator " ++ op ++ " expects operands, not the simple form"
  | setForm op => "Operator " ++ op ++ " expects a literal set"
  | rangeForm => "range expects \x7bpath: \x7bop: bound, ...\x7d\x7d"
  | boundsForm path => "range bounds for " ++ path ++ " must be an object"
  | caseForm => "case expects an array of when clauses"
  | caseOrder => "Only the last case clause may be a default"
  | betweenForm => "between expects \x7bpath: [prefix, suffix]\x7d"
  | selectName => "select field requires a name"
  | selectForm value => "Bad select field " ++ value.toText
  | scriptForbidden => "script is not allowed in this context"
  | scriptForm => "script expects a string"
  | offsetForm => "offset expects a non-negative integer"
  | patternForm => "regexp expects a literal pattern"
  | leavesForm => "leaves expects a path"
  | rowsForm => "rows expects \x7bpath: integer offset\x7d"
  | unknownOperator name => name
  | arity op _ _ => op
  | moment e => e.detail

def message : ExprError → String
  | unknownOperator name => "Unknown operator: " ++ name
  | arity op expected actual =>
    "Operator " ++ op ++ " expects " ++ expected ++ " operands, got " ++ toString actual
  | moment e => e.message
  | e => "Parse error: " ++ e.detail

end ExprError

end Snowbank
