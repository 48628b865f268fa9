import Snowbank.Proofs.Expr.Narrows

/-!
# What a Filter Says

The truth of an expression when every typed variable reads its own column, in
a form that simplifying can be held against.

Simplifying negates a basic comparison by turning it round. That is right only
where both operands have a value, so the truth of a basic comparison without
one has to be left open. `holds` takes it as a parameter, which a negation turns
round like everything else, and gives for `false` what certainly holds and for
`true` what possibly holds. The truth itself lies in between. An expression that
leaves nothing open can then only become one that is just as true.

## Main definitions

* `evaluateColumns`: The value, with variables read from their columns.
* `holds`: The truth, with what is open as a parameter.
* `Refines`: What an expression is replaced by leaves no more open.

## Theorems

* `holds_of_isPlain`: The truth of a plain expression is that of its value.
* `Refines.truthy`: Where nothing is open, the truth stays.
-/

namespace Snowbank

open List Bool

/-- What the column of a type holds of a value: a column of a scalar type only
    has values of that type. -/
def columnValue (type : DataType) (value : Json) : Json :=
  if type.isScalar && (DataType.ofJson value).storage != type.storage then .null else value

namespace Expr

/-- The value of an expression on a document, with variables read from the
    columns of their types. -/
def evaluateColumns (row : Json) (e : Expr) : Json :=
  e.evaluateWith (fun path type => columnValue type (row.lookup path)) row

mutual

/-- The expression is true on a document, where a basic comparison without a value counts as
    `guess`. With `false` it certainly holds, with `true` it possibly holds. -/
def holds (row : Json) (guess : Bool) : Expr → Bool
  | not x => !holds row (!guess) x
  | and terms => holdsAll row guess terms
  | or terms => holdsAny row guess terms
  | when cond x y =>
    (holds row guess cond && holds row guess x) || (!holds row (!guess) cond && holds row guess y)
  | case clauses other => holdsCase row guess clauses (holds row guess other)
  | binary (.basicCompare op) x y =>
    if (x.evaluateColumns row).isNull || (y.evaluateColumns row).isNull then guess
    else op.apply (x.evaluateColumns row) (y.evaluateColumns row)
  | e => (e.evaluateColumns row).isTruthy

/-- All terms are true. -/
def holdsAll (row : Json) (guess : Bool) : List Expr → Bool
  | [] => true
  | x :: rest => holds row guess x && holdsAll row guess rest

/-- Some term is true. -/
def holdsAny (row : Json) (guess : Bool) : List Expr → Bool
  | [] => false
  | x :: rest => holds row guess x || holdsAny row guess rest

/-- The first clause whose condition is true has a true value, or the other value is true. -/
def holdsCase (row : Json) (guess : Bool) : List (Expr × Expr) → Bool → Bool
  | [], other => other
  | (cond, x) :: rest, other =>
    (holds row guess cond && holds row guess x) ||
      (!holds row (!guess) cond && holdsCase row guess rest other)

end

/-- The truth of the expression is that of its value. -/
def isPlain : Expr → Bool
  | not _ | and _ | or _ | when _ _ _ | case _ _ | binary (.basicCompare _) _ _ => false
  | _ => true

section

variable {row : Json} {b : Bool}

theorem holds_of_isPlain {e : Expr} (h : e.isPlain) :
    holds row b e = (e.evaluateColumns row).isTruthy := by
  rw [holds] <;> (intros; subst_vars; exact Bool.noConfusion h)

theorem isTruthy_bool (b : Bool) : (Json.bool b).isTruthy = b := rfl

@[simp] theorem holds_const (v : Json) : holds row b (const v) = v.isTruthy := rfl

@[simp] theorem holds_not (x : Expr) : holds row b (not x) = !holds row (!b) x :=
  rfl

@[simp] theorem holds_and (terms : List Expr) :
    holds row b (and terms) = terms.all (holds row b) := by
  change holdsAll row b terms = _
  induction terms with
  | nil => rfl
  | cons x rest ih => rw [holdsAll, ih, all_cons]

@[simp] theorem holds_or (terms : List Expr) :
    holds row b (or terms) = terms.any (holds row b) := by
  change holdsAny row b terms = _
  induction terms with
  | nil => rfl
  | cons x rest ih => rw [holdsAny, ih, any_cons]

@[simp] theorem holds_when (cond x y : Expr) : holds row b (when cond x y) =
      ((holds row b cond && holds row b x) || (!holds row (!b) cond && holds row b y)) :=
  rfl

@[simp] theorem holds_case_nil (other : Expr) :
    holds row b (case [] other) = holds row b other :=
  rfl

@[simp] theorem holds_case_cons (cond x : Expr) (rest : List (Expr × Expr)) (other : Expr) :
    holds row b (case ((cond, x) :: rest) other) = holds row b (when cond x (case rest other)) :=
  rfl

theorem connects_holds (row : Json) : Connects (holds row) :=
  ⟨fun _ => holds_not, fun _ => holds_and, fun _ => holds_or, fun _ => holds_when,
    fun _ => holds_case_nil, fun _ => holds_case_cons⟩

theorem holds_basicCompare (op : Inequality) (x y : Expr) :
    holds row b (binary (.basicCompare op) x y) =
      if (x.evaluateColumns row).isNull || (y.evaluateColumns row).isNull then b
      else op.apply (x.evaluateColumns row) (y.evaluateColumns row) :=
  rfl

theorem holds_basicEq (x y : Expr) : holds row b (binary .basicEq x y) =
      (!(x.evaluateColumns row).isNull && !(y.evaluateColumns row).isNull &&
        (x.evaluateColumns row).valueEq (y.evaluateColumns row)) := by
  rw [holds_of_isPlain rfl]
  change Json.isTruthy (if (x.evaluateColumns row).isNull || (y.evaluateColumns row).isNull
    then .null else .bool _) = _
  cases (x.evaluateColumns row).isNull
  · cases (y.evaluateColumns row).isNull
    · rfl
    · rfl
  · rfl

theorem evaluateColumns_nary (op : Nary) (terms : List Expr) :
    evaluateColumns row (nary op terms) = op.apply (terms.map (evaluateColumns row)) := by
  rw [evaluateColumns, evaluateWith, evaluateAll_eq_map]
  rfl

theorem evaluateColumns_case_cons (cond x : Expr) (rest : List (Expr × Expr)) (other : Expr) :
    evaluateColumns row (case ((cond, x) :: rest) other) =
      evaluateColumns row (when cond x (case rest other)) := by
  simp [evaluateColumns, evaluateWith, evaluateCase]

end

section

variable {row : Json}

variable {e x y : Expr} {terms : List Expr}

/-- The truth of an expression lies between what certainly and what possibly holds. -/
def Bounded (row : Json) (e : Expr) : Prop :=
  (holds row false e → (e.evaluateColumns row).isTruthy) ∧
    ((e.evaluateColumns row).isTruthy → holds row true e)

theorem bounded_of_eq (h : ∀ b, holds row b e = (e.evaluateColumns row).isTruthy) : Bounded row e :=
  ⟨fun hfalse => h false ▸ hfalse, fun htrue => (h true).trans htrue⟩

theorem bounded_not (hx : Bounded row x) : Bounded row (not x) := by
  have heval : ((not x).evaluateColumns row).isTruthy = !(x.evaluateColumns row).isTruthy := rfl
  rw [Bounded, heval, holds_not, holds_not, not_eq_true', not_eq_true', not_eq_true',
    ← not_eq_true, ← not_eq_true, ← not_eq_true]
  exact ⟨fun h htrue => h (hx.2 htrue), fun h hfalse => h (hx.1 hfalse)⟩

theorem bounded_and (h : ∀ t ∈ terms, Bounded row t) : Bounded row (and terms) := by
  have heval : ((and terms).evaluateColumns row).isTruthy =
      terms.all fun t => (t.evaluateColumns row).isTruthy := by
    rw [evaluateColumns_nary, Nary.apply, isTruthy_bool, all_map]
    rfl
  rw [Bounded, heval, holds_and, holds_and]
  simp only [all_eq_true]
  exact ⟨fun hall t ht => (h t ht).1 (hall t ht), fun hall t ht => (h t ht).2 (hall t ht)⟩

theorem bounded_or (h : ∀ t ∈ terms, Bounded row t) : Bounded row (or terms) := by
  have heval : ((or terms).evaluateColumns row).isTruthy =
      terms.any fun t => (t.evaluateColumns row).isTruthy := by
    rw [evaluateColumns_nary, Nary.apply, isTruthy_bool, any_map]
    rfl
  rw [Bounded, heval, holds_or, holds_or]
  simp only [any_eq_true]
  exact ⟨fun ⟨t, ht, hsome⟩ => ⟨t, ht, (h t ht).1 hsome⟩,
    fun ⟨t, ht, hsome⟩ => ⟨t, ht, (h t ht).2 hsome⟩⟩

theorem bounded_when {cond : Expr} (hc : Bounded row cond) (hx : Bounded row x)
    (hy : Bounded row y) : Bounded row (when cond x y) := by
  have heval : ((when cond x y).evaluateColumns row).isTruthy =
      if (cond.evaluateColumns row).isTruthy then (x.evaluateColumns row).isTruthy
      else (y.evaluateColumns row).isTruthy := by
    rw [evaluateColumns]
    exact apply_ite Json.isTruthy _ _ _
  rw [Bounded, heval]
  simp only [holds_when, Bool.or_eq_true, Bool.and_eq_true, Bool.not_eq_true', Bool.not_true,
    Bool.not_false]
  by_cases hcond : (cond.evaluateColumns row).isTruthy
  · -- the condition is true, so it is possible, and the second branch is not certain
    rw [if_pos hcond]
    refine ⟨fun h => ?_, fun h => .inl ⟨hc.2 hcond, hx.2 h⟩⟩
    rcases h with h | h
    · exact hx.1 h.2
    · rw [hc.2 hcond] at h
      exact Bool.noConfusion h.1
  · -- the condition is false, so it is not certain, and the second branch is possible
    rw [if_neg hcond]
    have hfalse : holds row false cond = false := Bool.not_eq_true _ ▸ fun h => hcond (hc.1 h)
    refine ⟨fun h => ?_, fun h => .inr ⟨hfalse, hy.2 h⟩⟩
    rcases h with h | h
    · exact absurd (hc.1 h.1) hcond
    · exact hy.1 h.2

theorem bounded_case {clauses : List (Expr × Expr)} {other : Expr}
    (h : ∀ c ∈ clauses, Bounded row c.1 ∧ Bounded row c.2) (ho : Bounded row other) :
    Bounded row (case clauses other) := by
  induction clauses with
  | nil =>
    have heval : (case [] other).evaluateColumns row = other.evaluateColumns row := by
      simp [evaluateColumns, evaluateWith, evaluateCase]
    rw [Bounded, holds_case_nil, holds_case_nil, heval]
    exact ho
  | cons clause rest ih =>
    rw [forall_mem_cons] at h
    rw [Bounded, holds_case_cons, holds_case_cons, evaluateColumns_case_cons]
    exact bounded_when h.1.1 h.1.2 (ih h.2)

theorem bounded_basicCompare {op : Inequality} : Bounded row (binary (.basicCompare op) x y) := by
  have heval : (binary (.basicCompare op) x y).evaluateColumns row =
      if (x.evaluateColumns row).isNull || (y.evaluateColumns row).isNull then .null
      else .bool (op.apply (x.evaluateColumns row) (y.evaluateColumns row)) := rfl
  rw [Bounded, heval, holds, holds]
  split
  · exact ⟨fun h => Bool.noConfusion h, fun _ => rfl⟩
  · exact ⟨fun h => h, fun h => h⟩

/-- The truth lies between what certainly and what possibly holds. -/
theorem bounded (row : Json) (e : Expr) : Bounded row e := by
  induction e using induction_children with
  | step e ih =>
    by_cases hplain : e.isPlain
    · exact bounded_of_eq (fun b => holds_of_isPlain hplain)
    · unfold isPlain at hplain
      split at hplain
      · exact bounded_not (ih _ mem_cons_self)
      · exact bounded_and ih
      · exact bounded_or ih
      · simp only [children, forall_mem_cons] at ih
        exact bounded_when ih.1 ih.2.1 ih.2.2.1
      · rw [forall_mem_children] at ih
        exact bounded_case ih.1 ih.2
      · exact bounded_basicCompare
      · exact absurd rfl hplain

end

/-- `r` leaves no more open than `e`: what certainly held still does, and
    nothing is possible that was not. -/
structure Refines (row : Json) (e r : Expr) : Prop where
  lower : holds row false e → holds row false r
  upper : holds row true r → holds row true e

namespace Refines

variable {row : Json} {e r : Expr}

theorem of_eq (h : ∀ b, holds row b e = holds row b r) : Refines row e r :=
  ⟨fun he => h false ▸ he, fun hr => (h true).trans hr⟩

theorem refl (e : Expr) : Refines row e e := of_eq fun _ => rfl

theorem trans {m : Expr} (h : Refines row e m) (h' : Refines row m r) : Refines row e r :=
  ⟨fun he => h'.lower (h.lower he), fun hr => h.upper (h'.upper hr)⟩

theorem of_narrows (h : Narrows (holds row) e r) : Refines row e r := ⟨h.lower, h.upper⟩

theorem narrows (h : Refines row e r) : Narrows (holds row) e r := ⟨h.lower, h.upper⟩

theorem value (e : Expr) : Refines row e (const (e.evaluateColumns row)) :=
  ⟨(bounded row e).1, (bounded row e).2⟩

theorem truthy {truth : Bool} (h : Refines row e r) (he : ∀ b, holds row b e = truth) :
    (r.evaluateColumns row).isTruthy = truth := by
  rw [Bool.eq_iff_iff]
  constructor
  · intro hr
    rw [← he true]
    exact h.upper ((bounded row r).2 hr)
  · intro htruth
    rw [← he false] at htruth
    exact (bounded row r).1 (h.lower htruth)

end Refines

end Expr

end Snowbank
