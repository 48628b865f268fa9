import Snowbank.Proofs.Filter.Meaning
import Snowbank.Proofs.Json.Leaf

/-!
# What Filters Compare

The operands of the tests in a filter: constants, and variables at paths where
single values are stored. A pass replaces a variable by the column of its
path, or where there are columns of several types by the choice between them.

A field that is stored under several types has at most one column with a
value. So a test of the field that fails without a value is the same as that
test of one of its columns, which is what lets a comparison be taken apart.

## Main definitions

* `AgreesAt`: A document agrees with the types that are stored at a path.
* `Operand`: Operands before a pass.
* `Settled`: Operands after a pass.

## Theorems

* `Operand.settled_bound`: A pass settles operands.
* `Settled.any_branches`: A test of a field is that of one of its columns.
-/

namespace Snowbank

open List Bool DataType

/-- Values of some scalar types are stored at a path, and the document has none
    there or one of these types. -/
structure AgreesAt (s : Schema) (row : Json) (path : Path) (types : List DataType) : Prop where
  typesAt : s.typesAt path = some types
  nodup : types.Nodup
  scalar : ∀ t ∈ types, t.isScalar ∧ t.storage = t
  /-- Without a column there is nothing beneath the path either. -/
  alone : types = [] → s.hasDescendants path = false
  leaf : (row.lookup path).IsLeaf
  value : (row.lookup path).isNull ∨ (ofJson (row.lookup path)).storage ∈ types

/-- The same at a path that is not the root. -/
structure StoredAt (s : Schema) (row : Json) (path : Path) (types : List DataType) : Prop
    extends AgreesAt s row path types where
  notRoot : (path == .root) = false

namespace StoredAt

variable {s : Schema} {row : Json} {path : Path} {types : List DataType}

variable {t : DataType}

theorem columnValue_eq (h : StoredAt s row path types) (ht : t ∈ types) :
    columnValue t (row.lookup path) =
      if (ofJson (row.lookup path)).storage = t then row.lookup path else .null := by
  have hscalar := h.scalar t ht
  rw [columnValue, hscalar.1, hscalar.2, Bool.true_and]
  by_cases htype : (ofJson (row.lookup path)).storage = t
  · rw [if_pos htype, htype, bne_self_eq_false, if_neg Bool.false_ne_true]
  · rw [if_neg htype, if_pos (bne_iff_ne.2 htype)]

theorem columnValue_of_isNull (h : StoredAt s row path types) (ht : t ∈ types)
    (hnull : (row.lookup path).isNull) : columnValue t (row.lookup path) = .null := by
  rw [h.columnValue_eq ht, Json.eq_null_of_isNull hnull]
  exact ite_self _

end StoredAt

namespace Expr

/-- Operands after a pass: constants, columns, and the choice between the
    columns of a field of several types. -/
inductive Settled (s : Schema) (row : Json) : Expr → Prop
  | const {v : Json} (leaf : v.IsLeaf) : Settled s row (const v)
  | column {path : Path} {types : List DataType} {t : DataType}
      (stored : StoredAt s row path types) (mem : t ∈ types) : Settled s row (var path t)
  | columns {path : Path} {types : List DataType} (stored : StoredAt s row path types)
      (several : 1 < types.length) : Settled s row (coalesce (types.map (var path)))

/-- Operands before a pass, in which variables may not be typed yet. -/
inductive Operand (s : Schema) (row : Json) : Expr → Prop
  | settled {x : Expr} (h : Settled s row x) : Operand s row x
  | field {path : Path} {types : List DataType} (stored : StoredAt s row path types) :
      Operand s row (field path)

/-- The columns of a field that holds values of some types. -/
def columns (path : Path) : List DataType → Expr
  | [] => null
  | [t] => var path t
  | types => coalesce (types.map (var path))

/-- What a pass makes of an operand. -/
def bound (s : Schema) : Expr → Expr
  | var path type => bind s path type
  | e => e

variable {s : Schema} {row : Json}

section

variable {path : Path} {types : List DataType}

theorem bind_column {t : DataType}
    (stored : StoredAt s row path types) (mem : t ∈ types) : bind s path t = var path t := by
  rw [bind, if_neg (not_eq_true _ ▸ stored.notRoot), stored.typesAt]
  cases types with
  | nil => cases mem
  | cons first rest =>
    have hscalar := stored.scalar t mem
    refine if_pos ?_
    rw [hscalar.1, hscalar.2, Bool.true_and, contains_iff_mem]
    exact mem

theorem bind_field (stored : StoredAt s row path types) :
    bind s path .object = columns path types := by
  rw [bind, if_neg (not_eq_true _ ▸ stored.notRoot), stored.typesAt]
  match types with
  | [] =>
    rw [stored.alone rfl]
    rfl
  | [t] =>
    have hscalar := (stored.scalar t mem_cons_self).1
    cases t with
    | null | object | nested | presence => cases hscalar
    | _ => rfl
  | first :: second :: rest =>
    have hall : (first :: second :: rest).all isScalar :=
      all_eq_true.2 (fun t ht => (stored.scalar t ht).1)
    dsimp only
    rw [hall]
    rfl

theorem evaluateColumns_var (path : Path) (t : DataType) :
    evaluateColumns row (var path t) = columnValue t (row.lookup path) := rfl

theorem evaluateColumns_field (path : Path) :
    evaluateColumns row (field path) = row.lookup path := rfl

theorem find?_eq_some_of_only {α : Type} {p : α → Bool} {l : List α} {a : α} (hmem : a ∈ l)
    (ha : p a) (honly : ∀ x ∈ l, x = a ∨ p x = false) : l.find? p = some a := by
  induction l with
  | nil => cases hmem
  | cons x rest ih =>
    rw [forall_mem_cons] at honly
    cases hx : p x with
    | true =>
      rcases honly.1 with rfl | hfalse
      · exact find?_cons_of_pos hx
      · rw [hx] at hfalse
        cases hfalse
    | false =>
      rw [find?_cons_of_neg (not_eq_true _ ▸ hx)]
      refine ih ((mem_cons.1 hmem).resolve_left ?_) honly.2
      rintro rfl
      rw [hx] at ha
      cases ha

/-- The choice between the columns of a field is the value of the field. -/
theorem evaluateColumns_columns (stored : StoredAt s row path types) :
    evaluateColumns row (coalesce (types.map (var path))) = row.lookup path := by
  have hvalues : (types.map (var path)).map (evaluateColumns row) =
      types.map fun t => columnValue t (row.lookup path) := by
    rw [map_map]
    rfl
  rw [evaluateColumns_nary, hvalues, Nary.apply]
  by_cases hnull : (row.lookup path).isNull
  · -- no column has a value
    have hnone : ((types.map fun t => columnValue t (row.lookup path)).find?
        fun v => !v.isMissing) = none := by
      refine find?_eq_none.2 (fun v hv => ?_)
      obtain ⟨t, ht, rfl⟩ := mem_map.1 hv
      rw [stored.columnValue_of_isNull ht hnull]
      exact false_ne_true
    rw [hnone, Json.eq_null_of_isNull hnull]
    rfl
  · -- the column of the type of the value is the only one that has one
    have hmem := stored.value.resolve_left hnull
    have hown := stored.columnValue_eq hmem
    rw [if_pos rfl] at hown
    have hfound : ((types.map fun t => columnValue t (row.lookup path)).find?
        fun v => !v.isMissing) = some (row.lookup path) := by
      refine find?_eq_some_of_only (mem_map.2 ⟨_, hmem, hown⟩) ?_ (fun v hv => ?_)
      · rw [stored.leaf.isMissing, not_eq_true', ← not_eq_true]
        exact hnull
      · obtain ⟨t, ht, rfl⟩ := mem_map.1 hv
        rw [stored.columnValue_eq ht]
        split
        · exact .inl rfl
        · exact .inr rfl
    rw [hfound]
    rfl

end

namespace Settled

variable {path : Path} {types : List DataType}

variable {x : Expr}

variable {t : DataType}

theorem bound_eq (h : Settled s row x) : bound s x = x := by
  cases h with
  | const => rfl
  | column stored mem => exact bind_column stored mem
  | columns => rfl

theorem leaf_column (stored : StoredAt s row path types) (mem : t ∈ types) :
    (columnValue t (row.lookup path)).IsLeaf := by
  rw [stored.columnValue_eq mem]
  split
  · exact stored.leaf
  · trivial

theorem leaf (h : Settled s row x) : (x.evaluateColumns row).IsLeaf := by
  cases h with
  | const leaf => exact leaf
  | column stored mem => exact leaf_column stored mem
  | columns stored several =>
    rw [evaluateColumns_columns stored]
    exact stored.leaf

theorem missingPlain_column (stored : StoredAt s row path types) :
    missingPlain (var path t) = unary .missing (var path t) := by
  rw [missingPlain, missingWith, if_neg (not_eq_true _ ▸ stored.notRoot)]

theorem missingPlain_columns : missingPlain (coalesce (types.map (var path))) =
      and (types.map fun t => missingPlain (var path t)) := by
  rw [missingPlain, missingWith, missingAll_eq_map, map_map]
  rfl

/-- The test for a missing value is one, and leaves nothing open. -/
theorem holds_missingPlain (h : Settled s row x) (b : Bool) :
    holds row b (missingPlain x) = (x.evaluateColumns row).isNull := by
  have hcolumn : ∀ {path types t}, StoredAt s row path types → t ∈ types →
      holds row b (missingPlain (var path t)) = (columnValue t (row.lookup path)).isNull := by
    intro path types t stored mem
    rw [missingPlain_column stored, holds_of_isPlain rfl]
    exact (leaf_column stored mem).isMissing
  cases h with
  | const leaf => rfl
  | column stored mem => exact hcolumn stored mem
  | @columns path types stored several =>
    rw [missingPlain_columns, holds_and, evaluateColumns_columns stored, all_map,
      Bool.eq_iff_iff, all_eq_true]
    constructor
    · intro hmissing
      by_contra hnull
      have hmem := stored.value.resolve_left hnull
      have hown := hmissing _ hmem
      rw [Function.comp, hcolumn stored hmem, stored.columnValue_eq hmem, if_pos rfl] at hown
      exact hnull hown
    · intro hnull t mem
      rw [Function.comp, hcolumn stored mem, stored.columnValue_of_isNull mem hnull]
      rfl

theorem holds_presentPlain (h : Settled s row x) (b : Bool) :
    holds row b (presentPlain x) = !(x.evaluateColumns row).isNull := by
  rw [presentPlain, holds_not, h.holds_missingPlain]

theorem alternatives?_columns (stored : StoredAt s row path types) (several : 1 < types.length) :
    (coalesce (types.map (var path))).alternatives? = some (types.map (var path)) := by
  match types, several, stored with
  | first :: second :: rest, _, stored =>
    refine if_pos (all_eq_true.2 (fun y hy => ?_))
    have hy : y ∈ (first :: second :: rest).map (var path) := hy
    obtain ⟨t, ht, rfl⟩ := mem_map.1 hy
    rw [isScalarVar, beq_self_eq_true, (stored.scalar t ht).1]
    rfl

section

variable (h : Settled s row x)
include h

/-- A field of several types has a column for each, and nothing else does. -/
theorem alternatives?_eq : (∃ path types, StoredAt s row path types ∧ 1 < types.length ∧
        x = coalesce (types.map (var path)) ∧ x.alternatives? = some (types.map (var path))) ∨
      x.alternatives? = none := by
  cases h with
  | const | column => exact .inr rfl
  | @columns path types stored several =>
    exact .inl ⟨path, types, stored, several, rfl, alternatives?_columns stored several⟩

/-- Where the field has several types, a test that fails without a value is a
    test of its columns. -/
theorem any_branches (test : Json → Bool) (hnull : test .null = false) :
    (x.branches.any fun y => test (y.evaluateColumns row)) = test (x.evaluateColumns row) := by
  rcases h.alternatives?_eq with ⟨path, types, stored, several, rfl, halts⟩ | halts
  · rw [branches, halts, Option.getD_some, evaluateColumns_columns stored, any_map,
      Bool.eq_iff_iff, any_eq_true]
    constructor
    · rintro ⟨t, mem, htest⟩
      rw [Function.comp, evaluateColumns_var, stored.columnValue_eq mem] at htest
      split at htest
      · exact htest
      · rw [hnull] at htest
        cases htest
    · intro htest
      have hpresent : ¬(row.lookup path).isNull := by
        intro hmissing
        rw [Json.eq_null_of_isNull hmissing, hnull] at htest
        cases htest
      have mem := stored.value.resolve_left hpresent
      refine ⟨_, mem, ?_⟩
      rw [Function.comp, evaluateColumns_var, stored.columnValue_eq mem, if_pos rfl]
      exact htest
  · rw [branches, halts, Option.getD_none, any_cons, any_nil, Bool.or_false]

theorem branch {y : Expr} (hy : y ∈ x.branches) : Settled s row y ∧ y.alternatives? = none := by
  rcases h.alternatives?_eq with ⟨path, types, stored, several, rfl, halts⟩ | halts
  · rw [branches, halts, Option.getD_some] at hy
    obtain ⟨t, mem, rfl⟩ := mem_map.1 hy
    exact ⟨.column stored mem, rfl⟩
  · rw [branches, halts, Option.getD_none, mem_singleton] at hy
    rw [hy]
    exact ⟨h, halts⟩

/-- What has no branches has a value of its type, if it has one. -/
theorem scalar (halts : x.alternatives? = none)
    (hpresent : (x.evaluateColumns row).isNull = false) :
    x.dataType.isScalar ∧ Json.Scalar (x.evaluateColumns row) x.dataType.storage := by
  cases h with
  | const leaf => exact ⟨leaf.isScalar hpresent, leaf.scalar hpresent⟩
  | @column path types t stored mem =>
    have hscalar := stored.scalar t mem
    refine ⟨hscalar.1, ?_⟩
    rw [evaluateColumns_var, stored.columnValue_eq mem] at hpresent ⊢
    split at hpresent
    next htype =>
      rw [if_pos htype, dataType, hscalar.2, ← htype]
      exact stored.leaf.scalar hpresent
    · cases hpresent
  | columns stored several =>
    rw [alternatives?_columns stored several] at halts
    cases halts

end

end Settled

namespace Operand

variable {x : Expr}

theorem settled_bound (h : Operand s row x) :
    Settled s row (bound s x) ∧ (bound s x).evaluateColumns row = x.evaluateColumns row := by
  cases h with
  | settled h => exact ⟨h.bound_eq.symm ▸ h, congrArg _ h.bound_eq⟩
  | @field path types stored =>
    have hbound : bound s (Expr.field path) = bind s path .object := rfl
    rw [hbound, bind_field stored, evaluateColumns_field]
    match types, stored with
    | [], stored =>
      have hnull := stored.value.resolve_right not_mem_nil
      exact ⟨.const trivial, (Json.eq_null_of_isNull hnull).symm⟩
    | [t], stored =>
      refine ⟨.column stored mem_cons_self, ?_⟩
      by_cases hnull : (row.lookup path).isNull
      · exact (stored.columnValue_of_isNull mem_cons_self hnull).trans
          (Json.eq_null_of_isNull hnull).symm
      · have hmem := stored.value.resolve_left hnull
        refine (stored.columnValue_eq mem_cons_self).trans ?_
        exact if_pos (mem_singleton.1 hmem)
    | first :: second :: rest, stored =>
      exact ⟨.columns stored (Nat.succ_lt_succ (Nat.succ_pos _)), evaluateColumns_columns stored⟩

theorem leaf (h : Operand s row x) : (x.evaluateColumns row).IsLeaf := by
  rw [← h.settled_bound.2]
  exact h.settled_bound.1.leaf

end Operand

end Expr

end Snowbank
