import Snowbank.Proofs.Filter.Connective

/-!
# Tests Are Simplified Soundly

A test of a field of several types becomes a choice between tests of its
columns, and a comparison becomes a choice between comparisons of columns whose
types can be compared. Columns of other types never compare, so nothing is lost
by leaving them out, and those that are compared are in order.

A node whose operands are all known is replaced by its value, which does not
depend on the document.

## Theorems

* `Atom.keeps_rewrite`: Folding a test and applying the rules are sound.
-/

namespace Snowbank

open List

variable {t : DataType} {a c e : Expr}

namespace Json.Scalar

variable {v : Json} {t type : DataType}

theorem describes_self (h : Scalar v t) : t.describes v := by
  cases h <;> rfl

theorem describes_eq_false (h : Scalar v t) (hne : t ≠ type)
    (hwhole : (type == .integer && t == .number) = false) : type.describes v = false := by
  cases h with
  | bool =>
    cases type with
    | boolean => exact absurd rfl hne
    | _ => rfl
  | num =>
    cases type with
    | number => exact absurd rfl hne
    | integer => cases hwhole
    | _ => rfl
  | str =>
    cases type with
    | string => exact absurd rfl hne
    | _ => rfl

end Json.Scalar

namespace Expr

variable {s : Schema} {row : Json}

section

variable {x : Expr}

theorem Settled.unknown_column {path : Path} {types : List DataType}
    (stored : StoredAt s row path types) (mem : t ∈ types) : Unknown s row (var path t) :=
  ⟨.settled (.column stored mem), rfl⟩

theorem Settled.test_missingPlain (h : Settled s row x) : Test s row (missingPlain x) := by
  have hcolumn : ∀ {path types t}, StoredAt s row path types → t ∈ types →
      Test s row (missingPlain (var path t)) := by
    intro path types t stored mem
    rw [missingPlain_column stored]
    exact .atom (.probe rfl (unknown_column stored mem))
  cases h with
  | const => exact .const rfl
  | column stored mem => exact hcolumn stored mem
  | @columns path types stored several =>
    rw [missingPlain_columns]
    refine .and (fun t ht => ?_)
    obtain ⟨type, mem, rfl⟩ := mem_map.1 ht
    exact hcolumn stored mem

theorem Settled.test_presentPlain (h : Settled s row x) : Test s row (presentPlain x) :=
  h.test_missingPlain.not

end

theorem incompatible_eq {t' : DataType} (h : t.isScalar) (h' : t'.isScalar) :
    incompatible t t' = (t.storage != t'.storage) := by
  revert h h'
  cases t <;> cases t' <;> decide

theorem any_congr_mem {α : Type} {f g : α → Bool} {l : List α} (h : ∀ x ∈ l, f x = g x) :
    l.any f = l.any g := by
  induction l with
  | nil => rfl
  | cons x rest ih =>
    rw [forall_mem_cons] at h
    rw [any_cons, any_cons, h.1, ih h.2]

theorem inOrder_of_compatible {x y : Expr} (hx : Settled s row x) (hy : Settled s row y)
    (hxalt : x.alternatives? = none) (hyalt : y.alternatives? = none)
    (h : incompatible x.dataType y.dataType = false) : InOrder row x y := by
  intro hxpresent hypresent
  obtain ⟨hxtype, hxvalue⟩ := hx.scalar hxalt hxpresent
  obtain ⟨hytype, hyvalue⟩ := hy.scalar hyalt hypresent
  rw [incompatible_eq hxtype hytype, bne_eq_false_iff_eq] at h
  rw [← h] at hyvalue
  exact hxvalue.order?_isSome hyvalue

/-- Two fields compare if two of their columns do that can be compared. -/
theorem any_pairings (ha : Settled s row a) (hc : Settled s row c) (b : Bool)
    (compare : Expr → Expr → Expr) (test : Json → Json → Bool)
    (hcompare : ∀ x y, (x.evaluateColumns row).isNull = false →
      (y.evaluateColumns row).isNull = false →
      holds row b (compare x y) = test (x.evaluateColumns row) (y.evaluateColumns row))
    (hapart : ∀ u v t t', Json.Scalar u t → Json.Scalar v t' → t ≠ t' → test u v = false) :
    (pairings a c compare).any (holds row b) =
      (!(a.evaluateColumns row).isNull && !(c.evaluateColumns row).isNull &&
        test (a.evaluateColumns row) (c.evaluateColumns row)) := by
  -- of two columns, with the pairs that are left out
  have hpair : ∀ x ∈ a.branches, ∀ y ∈ c.branches, ((if incompatible x.dataType y.dataType then none
        else some (and [presentPlain x, presentPlain y, compare x y])).any (holds row b)) =
      (!(x.evaluateColumns row).isNull && !(y.evaluateColumns row).isNull &&
        test (x.evaluateColumns row) (y.evaluateColumns row)) := by
    intro x hx y hy
    obtain ⟨hx, hxalt⟩ := ha.branch hx
    obtain ⟨hy, hyalt⟩ := hc.branch hy
    cases hxpresent : (x.evaluateColumns row).isNull with
    | true =>
      split
      · rfl
      · rw [Option.any_some, holds_and, all_cons, hx.holds_presentPlain, hxpresent]
        rfl
    | false =>
      cases hypresent : (y.evaluateColumns row).isNull with
      | true =>
        split
        · rfl
        · rw [Option.any_some, holds_and, all_cons, all_cons, hy.holds_presentPlain,
            hypresent, Bool.not_true, Bool.false_and, Bool.and_false]
          rfl
      | false =>
        split
        next happart =>
          obtain ⟨hxtype, hxvalue⟩ := hx.scalar hxalt hxpresent
          obtain ⟨hytype, hyvalue⟩ := hy.scalar hyalt hypresent
          rw [incompatible_eq hxtype hytype, bne_iff_ne] at happart
          rw [hapart _ _ _ _ hxvalue hyvalue happart]
          rfl
        · rw [Option.any_some, holds_and, all_cons, all_cons, all_cons,
            all_nil, hx.holds_presentPlain, hy.holds_presentPlain, hxpresent, hypresent,
            hcompare x y hxpresent hypresent, Bool.and_true, Bool.and_assoc]
  -- of a column and a field, and then of both fields
  have hrow : ∀ x ∈ a.branches, ((c.branches.filterMap fun y =>
        if incompatible x.dataType y.dataType then none
        else some (and [presentPlain x, presentPlain y, compare x y])).any (holds row b)) =
      (!(x.evaluateColumns row).isNull && !(c.evaluateColumns row).isNull &&
        test (x.evaluateColumns row) (c.evaluateColumns row)) := by
    intro x hx
    rw [← hc.any_branches (fun v => !(x.evaluateColumns row).isNull && !v.isNull &&
      test (x.evaluateColumns row) v) (by rw [Json.isNull, Bool.not_true, Bool.and_false,
        Bool.false_and]), any_filterMap]
    refine any_congr_mem fun y hy => ?_
    rw [← hpair x hx y hy]
    split <;> rename_i hsome <;> rw [hsome] <;> rfl
  rw [pairings, any_flatMap, any_congr_mem hrow]
  exact ha.any_branches (fun v => !v.isNull && !(c.evaluateColumns row).isNull &&
    test v (c.evaluateColumns row)) rfl

theorem test_pairings (ha : Settled s row a) (hc : Settled s row c) {compare : Expr → Expr → Expr}
    (hcompare : ∀ x y, Settled s row x → Settled s row y → InOrder row x y →
      Test s row (compare x y)) : ∀ t ∈ pairings a c compare, Test s row t := by
  intro t ht
  obtain ⟨x, hx, ht⟩ := mem_flatMap.1 ht
  obtain ⟨y, hy, ht⟩ := mem_filterMap.1 ht
  obtain ⟨hx, hxalt⟩ := ha.branch hx
  obtain ⟨hy, hyalt⟩ := hc.branch hy
  split at ht
  · cases ht
  next hcompatible =>
    rw [Bool.not_eq_true] at hcompatible
    cases ht
    refine .and (forall_mem_cons.2 ⟨hx.test_presentPlain,
      forall_mem_cons.2 ⟨hy.test_presentPlain, forall_mem_singleton.2 ?_⟩⟩)
    exact hcompare x y hx hy (inOrder_of_compatible hx hy hxalt hyalt hcompatible)

section

variable {x y : Expr}

theorem Settled.eq_null (h : x.isNull) : x = null := by
  unfold isNull at h
  split at h
  · rfl
  · cases h

section

variable (hx : Settled s row x) (hy : Settled s row y)
include hx hy

theorem holds_eq (b : Bool) : holds row b (binary .eq x y) =
      if (x.evaluateColumns row).isNull || (y.evaluateColumns row).isNull then
        (x.evaluateColumns row).isNull && (y.evaluateColumns row).isNull
      else (x.evaluateColumns row).valueEq (y.evaluateColumns row) := by
  rw [holds_of_isPlain rfl, ← hx.leaf.isMissing, ← hy.leaf.isMissing]
  rfl

theorem keeps_reduceEq : Keeps s row (binary .eq x y) (reduceEq x y) := by
  have hboth : ∀ b, holds row b (and [missingPlain x, missingPlain y]) =
      ((x.evaluateColumns row).isNull && (y.evaluateColumns row).isNull) := by
    intro b
    rw [holds_and, all_cons, all_cons, all_nil, hx.holds_missingPlain,
      hy.holds_missingPlain, Bool.and_true]
  have hmissing := Test.and2 hx.test_missingPlain hy.test_missingPlain
  have hequal : Test s row (binary .basicEq x y) := .atom (.test rfl (.settled hx) (.settled hy))
  unfold reduceEq
  split
  next hnull =>
    obtain rfl := Settled.eq_null hnull
    refine ⟨hy.test_missingPlain, .of_eq fun b => ?_⟩
    rw [holds_eq hx hy, hy.holds_missingPlain]
    rfl
  split
  next hnull =>
    obtain rfl := Settled.eq_null hnull
    refine ⟨hx.test_missingPlain, .of_eq fun b => ?_⟩
    rw [holds_eq hx hy, hx.holds_missingPlain]
    change (if _ || true then _ && true else _) = _
    rw [Bool.or_true, if_pos rfl, Bool.and_true]
  split
  · -- equal operands have equal values, so both are there or neither is
    rename_i heq
    have hvalue := (Operand.settled hx).value_congr heq
    refine ⟨.yes, .of_eq fun b => ?_⟩
    rw [holds_eq hx hy, ← Json.isNull_congr hvalue, Bool.or_self, Bool.and_self,
      ← Json.valueEq_congr_right _ hvalue, Json.valueEq_self hx.leaf]
    split
    · assumption
    · rfl
  split
  · -- one side has several types: its columns are compared one by one
    refine ⟨.or (forall_mem_cons.2 ⟨hmissing, test_pairings hx hy
      (fun u v hu hv _ => .atom (.test rfl (.settled hu) (.settled hv)))⟩), .of_eq fun b => ?_⟩
    have hpairs := any_pairings hx hy b (binary .basicEq) Json.valueEq
      (fun u v hu hv => by rw [holds_basicEq, hu, hv, Bool.not_false, Bool.true_and, Bool.true_and])
      (fun u v t t' hu hv hne => (hu.apart hv hne).2)
    rw [holds_eq hx hy, holds_or, any_cons, hboth, hpairs]
    cases (x.evaluateColumns row).isNull <;> cases (y.evaluateColumns row).isNull <;> simp
  rename_i halternatives
  rw [Bool.or_eq_true, not_or, Option.isSome_iff_ne_none, Option.isSome_iff_ne_none, not_ne_iff,
    not_ne_iff] at halternatives
  split
  · -- values of types that cannot be compared are not equal
    rename_i hapart
    refine ⟨hmissing, .of_eq fun b => ?_⟩
    rw [holds_eq hx hy, hboth]
    split
    · rfl
    next hpresent =>
      rw [Bool.not_eq_true, Bool.or_eq_false_iff] at hpresent
      obtain ⟨hxtype, hxvalue⟩ := hx.scalar halternatives.1 hpresent.1
      obtain ⟨hytype, hyvalue⟩ := hy.scalar halternatives.2 hpresent.2
      rw [incompatible_eq hxtype hytype, bne_iff_ne] at hapart
      rw [(hxvalue.apart hyvalue hapart).2, hpresent.1, Bool.false_and]
  · -- otherwise the rules spell out that both or neither is there
    refine ⟨.case ?_ ?_ hequal, .of_eq fun b => ?_⟩
    · exact forall_mem_cons.2 ⟨hx.test_missingPlain,
        forall_mem_singleton.2 hy.test_missingPlain⟩
    · exact forall_mem_cons.2 ⟨hy.test_missingPlain, forall_mem_singleton.2 .no⟩
    · rw [holds_eq hx hy]
      simp only [holds_case_cons, holds_case_nil, holds_when, hx.holds_missingPlain,
        hy.holds_missingPlain, holds_basicEq, holds_const, isTruthy_bool]
      cases (x.evaluateColumns row).isNull <;> cases (y.evaluateColumns row).isNull <;> simp

theorem holds_compare (op : Inequality) (b : Bool) : holds row b (binary (.compare op) x y) =
      (!(x.evaluateColumns row).isNull && !(y.evaluateColumns row).isNull &&
        op.apply (x.evaluateColumns row) (y.evaluateColumns row)) := by
  rw [holds_of_isPlain rfl, ← hx.leaf.isMissing, ← hy.leaf.isMissing]
  rfl

end

theorem keeps_reduceCompare (op : Inequality) (hx : Settled s row x) (hy : Settled s row y) :
    Keeps s row (binary (.compare op) x y) (reduceBinary (.compare op) x y) := by
  have hpairs := fun b => any_pairings hx hy b (binary (.basicCompare op)) op.apply
    (fun u v hu hv => by rw [holds_basicCompare, hu, hv]; rfl)
    (fun u v t t' hu hv hne => by rw [Inequality.apply, (hu.apart hv hne).1])
  rw [reduceBinary]
  split
  next hnull =>
    rw [Bool.or_eq_true] at hnull
    refine ⟨.no, .of_eq fun b => ?_⟩
    rw [holds_compare hx hy]
    rcases hnull with hnull | hnull
    · obtain rfl := Settled.eq_null hnull
      rfl
    · obtain rfl := Settled.eq_null hnull
      change (_ && false && _) = false
      rw [Bool.and_false, Bool.false_and]
  · refine ⟨.or (test_pairings hx hy
      (fun u v hu hv horder => .atom (.ordered (.settled hu) (.settled hv) horder))),
      .of_eq fun b => ?_⟩
    rw [holds_compare hx hy, holds_or, hpairs]

theorem holds_member (hx : Settled s row x) (set : List Json) (b : Bool) :
    holds row b (member x set) = if (x.evaluateColumns row).isNull then set.any Json.isNull
      else set.any (x.evaluateColumns row).valueEq := by
  rw [holds_of_isPlain rfl, ← hx.leaf.isMissing]
  rfl

theorem keeps_reduceMember (hx : Settled s row x) {set : List Json}
    (hset : ∀ v ∈ set, v.IsLeaf) : Keeps s row (member x set) (reduceMember x set) := by
  unfold reduceMember
  split
  · refine ⟨.no, .of_eq fun b => ?_⟩
    rw [holds_member hx, any_nil, any_nil, ite_self]
    rfl
  split
  -- null in the set stands for a missing value
  next hnull =>
    refine ⟨.or2 hx.test_missingPlain (.atom (.member (.settled hx)
      (fun v hv => hset v (mem_filter.1 hv).1))), .of_eq fun b => ?_⟩
    rw [holds_or, any_cons, any_cons, any_nil, Bool.or_false,
      hx.holds_missingPlain, holds_member hx, holds_member hx]
    cases hpresent : (x.evaluateColumns row).isNull with
    | true => rw [if_pos rfl, hnull, Bool.true_or]
    | false =>
      rw [if_neg Bool.false_ne_true, if_neg Bool.false_ne_true, Bool.false_or, any_filter]
      refine any_congr_mem fun v hv => ?_
      cases hv' : v.isNull with
      | true =>
        rw [Json.eq_null_of_isNull hv', (hx.leaf.scalar hpresent).valueEq_null]
        rfl
      | false => rfl
  next hnull =>
    rw [Bool.not_eq_true] at hnull
    split
    -- a single value is tested for equality
    next value _ =>
      rw [forall_mem_singleton] at hset
      rw [any_cons, any_nil, Bool.or_false] at hnull
      have hvalue : Settled s row (const value) := .const hset
      refine ⟨.atom (.test rfl (.settled hx) (.settled hvalue)), .of_eq fun b => ?_⟩
      rw [holds_member hx, holds_eq hx hvalue, any_cons, any_nil, Bool.or_false,
        any_cons, any_nil, Bool.or_false]
      change (if _ then value.isNull else _) = if _ || value.isNull then _ && value.isNull else _
      rw [hnull, Bool.or_false, Bool.and_false]
      rfl
    · -- a field of several types is a member if one of its columns is
      rcases hx.alternatives?_eq with ⟨path, types, stored, several, rfl, halts⟩ | halts
      · rw [halts]
        refine ⟨.or (fun t ht => ?_), .of_eq fun b => ?_⟩
        · rw [map_map] at ht
          obtain ⟨type, mem, rfl⟩ := mem_map.1 ht
          exact .atom (.member (.settled (.column stored mem)) hset)
        · have hbranches := hx.any_branches (fun v => v.isIn set) hnull
          rw [branches, halts, Option.getD_some] at hbranches
          rw [holds_of_isPlain rfl, holds_or, any_map]
          exact hbranches.symm
      · rw [halts]
        exact keeps_self (.atom (.member (.settled hx) hset))

/-- A column is of a type if it has a value, or never. -/
theorem keeps_reduceIsType (type : DataType) (hx : Settled s row x) (hopen : x.isConstant = false) :
    Keeps s row (unary (.isType type) x) (reduceIsType type x) := by
  have hself : Test s row (unary (.isType type) x) := .atom (.probe rfl ⟨.settled hx, hopen⟩)
  unfold reduceIsType
  rcases hx.alternatives?_eq with ⟨path, types, stored, several, rfl, halts⟩ | halts
  · rw [halts]
    refine ⟨.or (fun t ht => ?_), .of_eq fun b => ?_⟩
    · rw [map_map] at ht
      obtain ⟨t, mem, rfl⟩ := mem_map.1 ht
      exact .atom (.probe rfl (Settled.unknown_column stored mem))
    · have hbranches := hx.any_branches type.describes (by cases type <;> rfl)
      rw [branches, halts, Option.getD_some] at hbranches
      rw [holds_of_isPlain rfl, holds_or, any_map]
      exact hbranches.symm
  · rw [halts]
    dsimp only
    cases hx with
    | const => cases hopen
    | columns stored several =>
      rw [Settled.alternatives?_columns stored several] at halts
      cases halts
    | @column path types t stored mem =>
      have hscalar := stored.scalar t mem
      have hdescribes : ∀ b, holds row b (unary (.isType type) (var path t)) =
          type.describes ((var path t).evaluateColumns row) := fun b => holds_of_isPlain rfl
      -- a value that is there is of the type of the column
      have hvalue := fun hpresent => ((Settled.column stored mem).scalar halts hpresent).2
      rw [dataType, hscalar.2] at hvalue
      rw [dataType, hscalar.1, Bool.not_true, Bool.false_and, if_neg Bool.false_ne_true]
      split
      next htype =>
        refine ⟨(Settled.column stored mem).test_presentPlain, .of_eq fun b => ?_⟩
        have hsame : t = type := by
          rcases Bool.or_eq_true _ _ ▸ htype with htype | htype
          · exact beq_iff_eq.1 htype
          · rw [Bool.and_eq_true, beq_iff_eq, beq_iff_eq] at htype
            rw [htype.2] at hscalar
            exact DataType.noConfusion hscalar.2
        rw [hdescribes, (Settled.column stored mem).holds_presentPlain, ← hsame]
        cases hpresent : ((var path t).evaluateColumns row).isNull with
        | true =>
          rw [Json.eq_null_of_isNull hpresent]
          cases t <;> rfl
        | false => exact (hvalue hpresent).describes_self
      next htype =>
        rw [Bool.not_eq_true, Bool.or_eq_false_iff, beq_eq_false_iff_ne] at htype
        split
        · exact keeps_self hself
        next hwhole =>
          refine ⟨.no, .of_eq fun b => ?_⟩
          rw [hdescribes]
          cases hpresent : ((var path t).evaluateColumns row).isNull with
          | true =>
            rw [Json.eq_null_of_isNull hpresent]
            cases type <;> rfl
          | false =>
            exact (hvalue hpresent).describes_eq_false htype.1 (Bool.not_eq_true _ ▸ hwhole)

theorem Atom.keeps_reduce (h : Atom row (Settled s row) (Settled s row) e)
    (hopen : e.children.all isConstant = false) : Keeps s row e e.reduce := by
  cases h with
  | @probe op x probes operand =>
    rw [children, all_cons, all_nil, Bool.and_true] at hopen
    have hunknown : Unknown s row x := ⟨.settled operand, hopen⟩
    have hmissing : ∀ b, holds row b (unary .missing x) = (x.evaluateColumns row).isNull := by
      intro b
      rw [holds_of_isPlain rfl, ← operand.leaf.isMissing]
      rfl
    rw [reduce]
    cases op with
    | missing =>
      rw [reduceUnary]
      split
      · exact keeps_self (.atom (.probe rfl hunknown))
      · refine ⟨operand.test_missingPlain, .of_eq fun b => ?_⟩
        rw [hmissing, operand.holds_missingPlain]
    | present =>
      refine ⟨.not (.atom (.probe rfl hunknown)), .of_eq fun b => ?_⟩
      rw [holds_not, hmissing, holds_of_isPlain rfl, ← operand.leaf.isMissing]
      rfl
    | isType type => exact keeps_reduceIsType type operand hopen
    | _ => cases probes
  | member operand leaves => exact keeps_reduceMember operand leaves
  -- a range is the conjunction of its comparisons
  | @range x bounds operand limits =>
    refine ⟨.and (fun t ht => ?_), .of_eq fun b => ?_⟩
    · obtain ⟨limit, hlimit, rfl⟩ := mem_map.1 ht
      exact .atom (.test rfl (.settled operand) (.settled (limits limit hlimit)))
    · rw [holds_of_isPlain rfl, evaluateColumns_range, isTruthy_bool, holds_and, all_map]
      rfl
  | @test op x y tests left right =>
    cases op with
    | eq => exact keeps_reduceEq left right
    | ne =>
      refine ⟨.not (.atom (.test rfl (.settled left) (.settled right))), .of_eq fun b => ?_⟩
      rw [holds_not, holds_of_isPlain rfl, holds_of_isPlain rfl]
      rfl
    | compare op => exact keeps_reduceCompare op left right
    | basicEq => exact keeps_self (.atom (.test rfl (.settled left) (.settled right)))
    | _ => cases tests
  | ordered left right order =>
    exact keeps_self (.atom (.ordered (.settled left) (.settled right) order))

end

theorem Atom.keeps_rewrite (h : Atom row (Settled s row) (Settled s row) e) :
    Keeps s row e e.rewrite := by
  have hfold : e.isFoldable := by cases h <;> rfl
  rw [rewrite, hfold, Bool.true_and]
  split
  next hknown =>
    rw [evaluate_null_eq hfold hknown _ row]
    exact ⟨.const h.isTruthValue, .value e⟩
  next hopen => exact h.keeps_reduce (Bool.not_eq_true _ ▸ hopen)

end Expr

end Snowbank
