import Snowbank.Proofs.Json.Equal

/-!
# Comparing Leaves

Values that are neither arrays nor objects, and how they compare: values of one
stored type are in order, and values of two are neither equal nor in order.

## Main definitions

* `IsLeaf`: Null, a truth value, a text, or a number that is not NaN.
* `Scalar`: A leaf that is there, with the type that it is stored under.

## Theorems

* `IsLeaf.scalar`: A leaf that is there has a type.
* `Scalar.apart`: Values of two types do not compare.
-/

namespace Snowbank.Json

open DataType

/-- The value is null, a truth value, a text or a number that is not NaN. -/
def IsLeaf : Json → Prop
  | .null | .bool _ | .str _ => True
  | .num n => n.toFloat.isNaN = false
  | .arr _ | .obj _ => False

instance (v : Json) : Decidable v.IsLeaf := match v with
  | .null | .bool _ | .str _ => inferInstanceAs (Decidable True)
  | .num n => inferInstanceAs (Decidable (n.toFloat.isNaN = false))
  | .arr _ | .obj _ => inferInstanceAs (Decidable False)

theorem eq_null_of_isNull {v : Json} (h : v.isNull) : v = .null := by
  cases v with
  | null => rfl
  | _ => cases h

namespace IsLeaf

variable {u v : Json}

theorem isMissing (h : v.IsLeaf) : v.isMissing = v.isNull := by
  cases v with
  | arr | obj => exact h.elim
  | _ => rfl

theorem isScalar (h : v.IsLeaf) (hnull : v.isNull = false) : (ofJson v).isScalar := by
  cases v with
  | null => cases hnull
  | num n => cases n <;> rfl
  | arr | obj => exact h.elim
  | _ => rfl

end IsLeaf

/-- A leaf that is there, with the type that it is stored under. -/
inductive Scalar : Json → DataType → Prop
  | bool (b : Bool) : Scalar (.bool b) .boolean
  | num {n : Number} (number : n.toFloat.isNaN = false) : Scalar (.num n) .number
  | str (t : String) : Scalar (.str t) .string

theorem IsLeaf.scalar {v : Json} (h : v.IsLeaf) (hnull : v.isNull = false) :
    Scalar v (ofJson v).storage := by
  cases v with
  | null => cases hnull
  | bool b => exact .bool b
  | num n =>
    cases n with
    | int | float => exact .num h
  | str t => exact .str t
  | arr | obj => exact h.elim

theorem valueEq_leaf {u v : Json} (hu : u.IsLeaf) (hv : v.IsLeaf) : u.valueEq v = leafEq u v := by
  cases u with
  | arr | obj => exact hu.elim
  | _ =>
    cases v with
    | arr | obj => exact hv.elim
    | _ => simp [valueEq, equalsOneOf]

namespace Scalar

variable {u v : Json} {t t' : DataType}

theorem isLeaf (h : Scalar v t) : v.IsLeaf := by
  cases h with
  | num number => exact number
  | _ => trivial

theorem order?_isSome (hu : Scalar u t) (hv : Scalar v t) : (order? u v).isSome := by
  cases hu with
  | bool | str => cases hv; rfl
  | num hn =>
    cases hv with
    | num hm => exact Double.floatOrder?_isSome _ _ hn hm

theorem apart (hu : Scalar u t) (hv : Scalar v t') (hne : t ≠ t') :
    order? u v = none ∧ u.valueEq v = false := by
  rw [valueEq_leaf hu.isLeaf hv.isLeaf]
  cases hu with
  | bool =>
    cases hv with
    | bool => exact absurd rfl hne
    | _ => exact ⟨rfl, rfl⟩
  | num =>
    cases hv with
    | num => exact absurd rfl hne
    | _ => exact ⟨rfl, rfl⟩
  | str =>
    cases hv with
    | str => exact absurd rfl hne
    | _ => exact ⟨rfl, rfl⟩

theorem valueEq_null (hu : Scalar u t) : u.valueEq .null = false := by
  have hnull : IsLeaf .null := trivial
  rw [valueEq_leaf hu.isLeaf hnull]
  cases hu with
  | _ => rfl

end Scalar

section

variable {u v w : Json}

theorem beq_self (hu : u.IsLeaf) : (u == u) := by
  cases u with
  | num n =>
    cases n with
    | int k => exact beq_self_eq_true k
    | float x => exact Double.beq_self x hu
  | arr | obj => exact hu.elim
  | null => rfl
  | bool b => exact beq_self_eq_true b
  | str t => exact beq_self_eq_true t

theorem valueEq_self (hu : u.IsLeaf) : u.valueEq u := by
  rw [valueEq_leaf hu hu]
  cases u with
  | num n => exact Double.beq_self _ hu
  | arr | obj => exact hu.elim
  | null => rfl
  | bool b => exact beq_self_eq_true b
  | str t => exact beq_self_eq_true t

end

end Snowbank.Json
