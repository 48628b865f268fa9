import Snowbank.Proofs.Expr.Tree

/-!
# The Test for a Missing Value

For every expression there is another one that is to be true when the first has
no value. It is made from the tree alone, so it is a second reading of the
language, and it has to agree with the first one about three notions that are
easily mixed up: a value is null, it is missing (null or an empty array), or it
counts as false.

Exactness is passed on from operands to operators. The conditions of a choice
are taken into its test as they are, so nothing needs to be known of them; what
matters is that a choice and its test take the same branch. Most other operators
have a value whatever their operands are, and their test is the constant false.

## Main definitions

* `IsExact`: The test is true where the value is missing, and false elsewhere.
* `Structural`: The expression is built from logical and structural operators.

## Theorems

* `isExact_of_structural`: The test of such an expression is exact.
* `missing_exact`: The same, said of the values on a row.
-/

namespace Snowbank

open List Json DataType

namespace Json

theorem isMissing_iff (v : Json) : v.isMissing ↔ v = .null ∨ v = .arr [] := by
  cases v with
  | null => exact ⟨fun _ => .inl rfl, fun _ => rfl⟩
  | arr items => cases items <;> simp [isMissing]
  | _ => simp [isMissing]

theorem isMissing_ofFloat {x : Float} (h : x.isFinite) : (ofFloat x).isMissing = false := by
  unfold ofFloat float
  rw [if_pos h]
  split <;> rfl

end Json

namespace Expr

section

variable {terms : List Expr}

variable (onBetween : Expr → Expr) (row : Json)

variable {e x y : Expr}

/-- The test of an expression is true where the value is missing, and false where there is one. -/
def IsExact (e : Expr) : Prop :=
  evaluate row (missingWith onBetween e) = .bool (evaluate row e).isMissing

variable {onBetween row}

theorem isExact_of_present (htest : missingWith onBetween e = no)
    (hvalue : (evaluate row e).isMissing = false) : IsExact onBetween row e := by
  rw [IsExact, htest, hvalue]
  rfl

theorem isExact_of_asked (htest : missingWith onBetween e = unary .missing e) :
    IsExact onBetween row e := by
  rw [IsExact, htest]
  rfl

theorem evaluate_and (terms : List Expr) :
    evaluate row (and terms) = .bool ((terms.map (evaluate row)).all isTruthy) := by
  change Json.bool ((evaluateAll _ row terms).all isTruthy) = _
  rw [evaluateAll_eq_map]
  rfl

theorem evaluate_or (terms : List Expr) :
    evaluate row (or terms) = .bool ((terms.map (evaluate row)).any isTruthy) := by
  change Json.bool ((evaluateAll _ row terms).any isTruthy) = _
  rw [evaluateAll_eq_map]
  rfl

/-- The test of a choice takes the branch that the choice takes. -/
theorem evaluate_choice (cond : Expr) {p q : Bool}
    (hx : evaluate row x = .bool p) (hy : evaluate row y = .bool q) :
    evaluate row (or [and [cond, x], and [not cond, y]]) =
      .bool (if (evaluate row cond).isTruthy then p else q) := by
  have hvalue : evaluate row (or [and [cond, x], and [not cond, y]]) =
      .bool (((evaluate row cond).isTruthy && (evaluate row x).isTruthy) ||
        (!(evaluate row cond).isTruthy && (evaluate row y).isTruthy)) := by
    change Nary.apply .or [Nary.apply .and [_, _], Nary.apply .and [Unary.apply .not _, _]] = _
    simp only [Nary.apply, Unary.apply, any_cons, all_cons, any_nil, all_nil,
      isTruthy, Bool.and_true, Bool.or_false]
    rfl
  rw [hvalue, hx, hy]
  cases (evaluate row cond).isTruthy with
  | true | false => simp [isTruthy]

theorem isExact_when (cond : Expr) (hx : IsExact onBetween row x)
    (hy : IsExact onBetween row y) : IsExact onBetween row (when cond x y) := by
  rw [IsExact, missingWith, evaluate_choice cond hx hy]
  change _ = Json.bool (isMissing
    (if (evaluate row cond).isTruthy then evaluate row x else evaluate row y))
  split <;> rfl

theorem isExact_case {clauses : List (Expr × Expr)} {other : Expr}
    (hclauses : ∀ c ∈ clauses, IsExact onBetween row c.2) (hother : IsExact onBetween row other) :
    IsExact onBetween row (case clauses other) := by
  -- by induction on the clauses: the test of a clause is that of a choice
  -- between it and the rest
  induction clauses with
  | nil => exact hother
  | cons clause rest ih =>
    rw [forall_mem_cons] at hclauses
    have hrest := ih hclauses.2
    rw [IsExact, missingWith] at hrest
    rw [IsExact, missingWith, missingCase, evaluate_choice clause.1 hclauses.1 hrest]
    change _ = Json.bool (isMissing (if (evaluate row clause.1).isTruthy then evaluate row clause.2
        else evaluate row (case rest other)))
    split <;> rfl

section

variable (h : ∀ t ∈ terms, IsExact onBetween row t)
include h

theorem evaluate_missingAll : (missingAll onBetween terms).map (evaluate row) =
      (terms.map (evaluate row)).map fun v => .bool v.isMissing := by
  rw [missingAll_eq_map, map_map, map_map]
  exact map_congr_left h

theorem evaluate_and_missingAll : evaluate row (and (missingAll onBetween terms)) =
      .bool ((terms.map (evaluate row)).all isMissing) := by
  rw [evaluate_and, evaluate_missingAll h, all_map]
  rfl

theorem evaluate_or_missingAll : evaluate row (or (missingAll onBetween terms)) =
      .bool ((terms.map (evaluate row)).any isMissing) := by
  rw [evaluate_or, evaluate_missingAll h, any_map]
  rfl

/-- The first of several values that is there is missing when all of them are. -/
theorem isExact_coalesce : IsExact onBetween row (coalesce terms) := by
  have hvalue : ∀ values : List Json,
      ((values.find? fun v => !v.isMissing).getD .null).isMissing = values.all isMissing := by
    intro values
    induction values with
    | nil => rfl
    | cons v rest ih =>
      cases hv : v.isMissing with
      | true => simpa [find?_cons, hv] using ih
      | false => simp [hv]
  rw [IsExact]
  refine (evaluate_and_missingAll h).trans ?_
  change _ = Json.bool (isMissing
    (((evaluateAll _ row terms).find? fun v => !v.isMissing).getD .null))
  rw [hvalue, evaluateAll_eq_map]
  rfl

end

end

section

/-- The node is a logical or structural operator, a variable, or a constant that has a test. -/
def isStructural : Expr → Bool
  | const (.arr items) => !items.isEmpty
  | const _ => true
  | date seconds => seconds.isFinite
  | var _ _ | leaves _ | select _ => true
  | unary op _ =>
    match op with
    | .not | .missing | .present | .isType _ | .convert .boolean => true
    | _ => false
  | binary op _ _ =>
    match op with
    | .eq | .ne | .compare _ | .startsWith | .endsWith | .get => true
    | _ => false
  | nary op terms =>
    match op with
    | .and | .or | .coalesce | .count => true
    | .tuple => !terms.isEmpty
    | _ => false
  | when _ _ _ | case _ _ | member _ _ | matching _ _ | range _ _ => true
  | _ => false

/-- The expression is built from logical and structural operators. -/
def Structural (e : Expr) : Prop := ∀ n ∈ e.nodes, n.isStructural

instance (e : Expr) : Decidable e.Structural := inferInstanceAs (Decidable (∀ n ∈ e.nodes, _))

variable {onBetween : Expr → Expr} {fields : Fields}

theorem isExact_var (path : Path) (type : DataType) :
    IsExact onBetween (.obj fields) (var path type) := by
  by_cases hroot : (path == .root)
  · refine isExact_of_present (by rw [missingWith, if_pos hroot]) ?_
    change ((Json.obj fields).lookup path).isMissing = false
    rw [Json.lookup, if_pos hroot]
    rfl
  · exact isExact_of_asked (by rw [missingWith, if_neg hroot])

theorem isExact_unary {op : Unary} {x : Expr} (h : (unary op x).isStructural) (row : Json) :
    IsExact onBetween row (unary op x) := by
  cases op with
  | not | missing | present | isType => exact isExact_of_present rfl rfl
  | convert type =>
    cases type with
    | boolean =>
      refine isExact_of_present rfl ?_
      change isMissing (convert .boolean (evaluate row x)) = false
      unfold convert
      dsimp only
      split <;> rfl
    | _ => cases h
  | first | last | length => cases h

theorem isExact_binary {op : Binary} {a b : Expr} (h : (binary op a b).isStructural)
    (row : Json) : IsExact onBetween row (binary op a b) := by
  cases op with
  | eq | ne | compare | startsWith | endsWith => exact isExact_of_present rfl rfl
  | get => exact isExact_of_asked rfl
  | side | split | basicEq | basicCompare => cases h

theorem isExact_nary {op : Nary} {terms : List Expr} (h : (nary op terms).isStructural)
    {row : Json} (hterms : ∀ t ∈ terms, IsExact onBetween row t) :
    IsExact onBetween row (nary op terms) := by
  cases op with
  | and | or | count => exact isExact_of_present rfl rfl
  | coalesce => exact isExact_coalesce hterms
  | tuple =>
    cases terms with
    | nil => cases h
    | cons t rest => exact isExact_of_present rfl rfl
  | min | max => cases h

/-- Exactness goes from the operands of a structural node to the node. -/
theorem isExact_of_children {e : Expr} (hown : e.isStructural)
    (h : ∀ c ∈ e.children, IsExact onBetween (.obj fields) c) :
    IsExact onBetween (.obj fields) e := by
  cases e with
  | const value =>
    cases value with
    | arr items =>
      cases items with
      | nil => cases hown
      | cons => exact isExact_of_present rfl rfl
    | null => rfl
    | _ => exact isExact_of_present rfl rfl
  | date seconds => exact isExact_of_present rfl (isMissing_ofFloat hown)
  | var path type => exact isExact_var path type
  | leaves | select | member | matching | range => exact isExact_of_present rfl rfl
  | unary op x => exact isExact_unary hown _
  | binary op a b => exact isExact_binary hown _
  | nary op terms => exact isExact_nary hown h
  | when cond x y =>
    simp only [children, forall_mem_cons] at h
    exact isExact_when cond h.2.1 h.2.2.1
  | case clauses other =>
    rw [forall_mem_children] at h
    exact isExact_case (fun c hc => (h.1 c hc).2) h.2
  | offset | script | rows | arith | fold | concat | find | between | indexOf | substring =>
    cases hown

theorem isExact_of_structural {e : Expr} (he : e.Structural) :
    IsExact onBetween (.obj fields) e := by
  induction e using induction_children with
  | step e ih =>
    rw [Structural, forall_mem_nodes] at he
    exact isExact_of_children he.1 fun c hc => ih c hc (he.2 c hc)

/-- On a row that is an object, the test of an expression that is built from
    logical and structural operators is true exactly where the expression is
    null or an empty array, and false everywhere else. -/
theorem missing_exact {e : Expr} (he : e.Structural) (fields : Fields) :
    (evaluate (.obj fields) e.missing = .bool true ↔
      evaluate (.obj fields) e = .null ∨ evaluate (.obj fields) e = .arr []) ∧
    (¬(evaluate (.obj fields) e = .null ∨ evaluate (.obj fields) e = .arr []) →
      evaluate (.obj fields) e.missing = .bool false) := by
  have hexact : evaluate (.obj fields) e.missing = .bool (evaluate (.obj fields) e).isMissing :=
    isExact_of_structural he
  rw [hexact, ← Json.isMissing_iff, Json.bool.injEq, Json.bool.injEq]
  exact ⟨Iff.rfl, Bool.eq_false_iff.mpr⟩

/-- A choice whose first branch may be an empty array, and may be null. -/
def branching : Expr := when (unary .present (field "a"))
    (coalesce [field "b", case [(binary .eq (field "a") (int 1), leaves "c")] null]) (field "d")

/-- The branch is taken, the array in it is empty, and no clause holds. -/
theorem missing_exact_branching :
    branching.Structural ∧
      evaluate (.obj [("a", .int 2), ("b", .arr [.null])]) branching = .null ∧
      evaluate (.obj [("a", .int 2), ("b", .arr [.null])]) branching.missing = .bool true := by
  have hstructural : branching.Structural := by decide +kernel
  have hvalue : evaluate (.obj [("a", .int 2), ("b", .arr [.null])]) branching = .null := by rfl
  exact ⟨hstructural, hvalue, (missing_exact hstructural _).1.mpr (Or.inl hvalue)⟩

end

end Expr

end Snowbank
