import Snowbank.Proofs.Filter.Test

/-!
# Operators on the Tests of a Filter

The tests of a filter are judged in a way that the rules for operators on truth
values respect. What is left open are basic comparisons without a value, and
these may be turned round, since their operands are in order.

## Main definitions

* `Keeps`: What a rule gives for a node is a test that leaves no more open.

## Theorems

* `judges_holds`: The tests of a filter are judged by `holds`.
-/

namespace Snowbank

open List Bool

variable {a e : Expr} {op : Inequality}

theorem Inequality.apply_negate {u v : Json} (op : Inequality)
    (h : (Json.order? u v).isSome) : op.negate.apply u v = !op.apply u v := by
  rw [apply, apply]
  obtain ⟨order, horder⟩ := Option.isSome_iff_exists.1 h
  rw [horder]
  cases op <;> cases order <;> rfl

namespace Expr

/-- What a rule gives for a node is a test that leaves no more open. -/
def Keeps (s : Schema) (row : Json) (e : Expr) : Reduct → Prop
  | .done r | .again r => Test s row r ∧ Refines row e r

variable {s : Schema} {row : Json}

namespace Test

variable {x : Expr}

variable {terms : List Expr} {y : Expr}

theorem of_not (h : Test s row (Expr.not x)) : Test s row x := by
  cases h with
  | not h => exact h
  | atom h =>
    cases h with
    | probe probes => cases probes

theorem of_and (h : Test s row (Expr.and terms)) : ∀ t ∈ terms, Test s row t := by
  cases h with
  | and h => exact h
  | atom h => cases h

theorem of_or (h : Test s row (Expr.or terms)) : ∀ t ∈ terms, Test s row t := by
  cases h with
  | or h => exact h
  | atom h => cases h

theorem of_basicCompare {b : Expr} (h : Test s row (binary (.basicCompare op) a b)) :
    Operand s row a ∧ Operand s row b ∧ InOrder row a b := by
  cases h with
  | atom h =>
    cases h with
    | test tests => cases tests
    | ordered left right order => exact ⟨left, right, order⟩

theorem of_const {v : Json} (h : Test s row (Expr.const v)) : v.isTruthValue := by
  cases h with
  | const truth => exact truth
  | atom h => cases h

theorem of_when {cond : Expr} (h : Test s row (Expr.when cond x y)) :
    Test s row cond ∧ Test s row x ∧ Test s row y := by
  cases h with
  | when hc hx hy => exact ⟨hc, hx, hy⟩
  | atom h => cases h

theorem of_case {clauses : List (Expr × Expr)} {other : Expr}
    (h : Test s row (Expr.case clauses other)) :
    (∀ c ∈ clauses, Test s row c.1 ∧ Test s row c.2) ∧ Test s row other := by
  cases h with
  | case hc hx ho => exact ⟨fun c hmem => ⟨hc c hmem, hx c hmem⟩, ho⟩
  | atom h => cases h

theorem and2 (hx : Test s row x) (hy : Test s row y) : Test s row (Expr.and [x, y]) :=
  .and (forall_mem_cons.2 ⟨hx, forall_mem_singleton.2 hy⟩)

theorem or2 (hx : Test s row x) (hy : Test s row y) : Test s row (Expr.or [x, y]) :=
  .or (forall_mem_cons.2 ⟨hx, forall_mem_singleton.2 hy⟩)

theorem yes : Test s row yes := .const rfl

theorem no : Test s row no := .const rfl

end Test

theorem keeps_self (h : Test s row e) : Keeps s row e (.done e) := ⟨h, .refl e⟩

/-- Negating a comparison turns it round, and what was left open as well. -/
theorem holds_negate {c : Expr} (h : InOrder row a c) (b : Bool) :
    holds row b (not (binary (.basicCompare op) a c)) =
      holds row b (binary (.basicCompare op.negate) a c) := by
  rw [holds_not, holds_basicCompare, holds_basicCompare]
  split
  · exact not_not b
  next hpresent =>
    rw [not_eq_true, or_eq_false_iff] at hpresent
    rw [op.apply_negate (h hpresent.1 hpresent.2)]

theorem judges_holds (s : Schema) (row : Json) : Judges (Test s row) (holds row) where
  toConnects := connects_holds row
  holds_bool b t := rfl
  holds_null := rfl
  possible _ h := (bounded _ _).2 ((bounded _ _).1 h)
  congr h heq b := h.holds_congr heq b
  type h := not_countsWhenPresent_of_isTruth h.isTruth
  turn h := by
    obtain ⟨left, right, order⟩ := h.of_basicCompare
    refine ⟨.atom (.ordered left right order), fun b => ?_⟩
    rw [← holds_negate order, holds_not]
  test_const := ⟨Test.of_const, .const⟩
  test_not := ⟨Test.of_not, .not⟩
  test_and := ⟨Test.of_and, .and⟩
  test_or := ⟨Test.of_or, .or⟩
  test_when := ⟨Test.of_when, fun h => .when h.1 h.2.1 h.2.2⟩
  test_case := ⟨Test.of_case,
    fun h => .case (fun c hc => (h.1 c hc).1) (fun c hc => (h.1 c hc).2) h.2⟩

theorem keeps_of_narrowed {d : Reduct}
    (h : Narrowed (Test s row) (holds row) e d) : Keeps s row e d := by
  cases d with
  | done | again => exact ⟨h.1, .of_narrows h.2⟩

end Expr

end Snowbank
