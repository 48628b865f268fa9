import Snowbank.Proofs.Filter.Preserved

/-!
# Conditions Without a Schema

Tests of fields whose types are not known. A field may hold anything on a
document, a list of values too, so a comparison that both sides have a value for
may still be in no order, and then neither it nor the turned one holds.

What the rules make of a test is not always as true as the test. A list equals
a value when one of its items does, and in membership null stands for a missing
value, so a list that holds null is a member of a set with null and no longer
once null has been taken out of it. What matters is that the rules are
consistent.

## Main definitions

* `assess`: What the rules make of a test on a document.
* `Check`: The tests that a pass may find.
* `Plain`: The tests that a pass leaves.

## Theorems

* `judgeable_check`: The tests may be judged by `assess`.
* `narrows_evaluate`: After a pass that is the truth of the value.
-/

namespace Snowbank

open Bool

open List hiding set

theorem Json.Alike.apply {u u' v v' : Json} (hu : Alike u u') (hv : Alike v v')
    (op : Inequality) : op.apply u v = op.apply u' v' := by
  rw [Inequality.apply, Inequality.apply, hu.order?_eq hv]

namespace Expr

/-- The operand counts as missing: a field where the document holds nothing or an
    empty list, a constant only if it is null. -/
def lacks (row : Json) : Expr → Bool
  | const v => v.isNull
  | x => (x.evaluate row).isMissing

/-- Both operands are there and compare. -/
def compares (row : Json) (op : Inequality) (x y : Expr) : Bool :=
  !lacks row x && !lacks row y && op.apply (x.evaluate row) (y.evaluate row)

/-- The operands are the same, or both missing, or both there and equal. -/
def agree (row : Json) (x y : Expr) : Bool :=
  x == y || if lacks row x || lacks row y then lacks row x && lacks row y
    else (x.evaluate row).valueEq (y.evaluate row)

/-- What the rules make of a test on a document. A basic comparison of a missing
    operand counts as `guess`. -/
def assess (row : Json) (guess : Bool) : Expr → Bool
  | unary .missing x => lacks row x
  | unary .present x => !lacks row x
  | member x set =>
    if lacks row x then set.any Json.isNull
    else (set.filter (!·.isNull)).any (x.evaluate row).valueEq
  | range x bounds => bounds.all fun b => compares row b.1 x b.2
  | binary .eq x y => agree row x y
  | binary .ne x y => !agree row x y
  | binary (.compare op) x y => compares row op x y
  | binary (.basicCompare op) x y =>
    if lacks row x || lacks row y then guess else op.apply (x.evaluate row) (y.evaluate row)
  | e => (e.evaluate row).isTruthy

/-- Fields and constants. -/
inductive IsTerm : Expr → Prop
  | field (path : Path) : IsTerm (field path)
  | const (v : Json) : IsTerm (const v)

/-- Two operands are in order unless one of them is missing. -/
def Ranked (row : Json) (x y : Expr) : Prop := lacks row x = false → lacks row y = false →
    (Json.order? (x.evaluate row) (y.evaluate row)).isSome

/-- The tests that a pass leaves. -/
inductive Plain (row : Json) : Expr → Prop
  | missing {path : Path} (below : (path == .root) = false) :
      Plain row (unary .missing (field path))
  | member (path : Path) {set : List Json} (present : set.any Json.isNull = false) :
      Plain row (member (field path) set)
  | equal {x y : Expr} (left : IsTerm x) (right : IsTerm y) : Plain row (binary .basicEq x y)
  | compare (op : Inequality) {x y : Expr} (left : IsOperand x) (right : IsOperand y)
      (ranked : Ranked row x y) : Plain row (binary (.basicCompare op) x y)

/-- What may be tested for equality: fields and single values, and a field with
    any value of a set. -/
inductive Paired : Expr → Expr → Prop
  | operands {x y : Expr} (left : IsOperand x) (right : IsOperand y) : Paired x y
  | value (path : Path) (v : Json) : Paired (field path) (const v)

/-- The tests that a pass may find. -/
inductive Check (row : Json) : Expr → Prop
  | plain {e : Expr} (h : Plain row e) : Check row e
  | missing (path : Path) : Check row (unary .missing (field path))
  | present (path : Path) : Check row (unary .present (field path))
  | member (path : Path) (set : List Json) : Check row (member (field path) set)
  | range (path : Path) {bounds : List (Inequality × Expr)}
      (limits : ∀ b ∈ bounds, IsOperand b.2 ∧ Ranked row (field path) b.2) :
      Check row (range (field path) bounds)
  | eq {x y : Expr} (h : Paired x y) : Check row (binary .eq x y)
  | ne {x y : Expr} (left : IsOperand x) (right : IsOperand y) : Check row (binary .ne x y)
  | compare (op : Inequality) {x y : Expr} (left : IsOperand x) (right : IsOperand y)
      (ranked : Ranked row x y) : Check row (binary (.compare op) x y)

section

variable {row : Json} {x y x' y' : Expr}

theorem IsOperand.isTerm (h : IsOperand x) : IsTerm x := by
  cases h with
  | field path => exact .field path
  | const => exact .const _

theorem IsOperand.lacks_eq (h : IsOperand x) : lacks row x = (x.evaluate row).isMissing := by
  cases h with
  | field => rfl
  | const leaf => exact leaf.isMissing.symm

theorem IsTerm.isNull_of_lacks (h : IsTerm x) (hlacks : lacks row x = false) :
    (x.evaluate row).isNull = false := by
  cases h with
  | field path =>
    have hmissing : (row.lookup path).isMissing = false := hlacks
    change (row.lookup path).isNull = false
    cases hvalue : row.lookup path with
    | null =>
      rw [hvalue] at hmissing
      cases hmissing
    | _ => rfl
  | const => exact hlacks

theorem Paired.terms (h : Paired x y) : IsTerm x ∧ IsTerm y := by
  cases h with
  | operands left right => exact ⟨left.isTerm, right.isTerm⟩
  | value path v => exact ⟨.field path, .const v⟩

theorem IsTerm.alike (row : Json) (h : IsTerm x) (heq : Equal x y) :
    (x.evaluate row).Alike (y.evaluate row) ∧ lacks row x = lacks row y := by
  cases h with
  | field path =>
    rw [heq.var]
    exact ⟨.inl rfl, rfl⟩
  | const v =>
    obtain ⟨w, rfl, hvw⟩ := heq.const
    exact ⟨.inr hvw, Json.isNull_congr hvw⟩

theorem IsTerm.beq_congr (hx : IsTerm x) (hy : IsTerm y) (hxx : Equal x x') (hyy : Equal y y') :
    (x == y) = (x' == y') := by
  cases hx with
  | field path =>
    rw [hxx.var]
    cases hy with
    | field => rw [hyy.var]; rfl
    | const v =>
      obtain ⟨w, rfl, -⟩ := hyy.const
      change beq _ _ = beq _ _
      simp [Expr.field, beq]
  | const v =>
    obtain ⟨w, rfl, hvw⟩ := hxx.const
    cases hy with
    | field =>
      rw [hyy.var]
      change beq _ _ = beq _ _
      simp [Expr.field, beq]
    | const u =>
      obtain ⟨t, rfl, hut⟩ := hyy.const
      change beq _ _ = beq _ _
      simp only [beq]
      exact (Json.beq_congr_left hvw u).trans (Json.beq_congr_right hut w)

end

section

variable {row : Json} {e : Expr}

variable {op : Inequality} {x y x' y' : Expr}

section

variable (hx : IsTerm x) (hy : IsTerm y) (hxx : Equal x x') (hyy : Equal y y')
include hx hy hxx hyy

theorem compares_congr : compares row op x y = compares row op x' y' := by
  obtain ⟨hxvalue, hxlacks⟩ := hx.alike row hxx
  obtain ⟨hyvalue, hylacks⟩ := hy.alike row hyy
  rw [compares, compares, hxlacks, hylacks, hxvalue.apply hyvalue]

theorem agree_congr : agree row x y = agree row x' y' := by
  obtain ⟨hxvalue, hxlacks⟩ := hx.alike row hxx
  obtain ⟨hyvalue, hylacks⟩ := hy.alike row hyy
  rw [agree, agree, hxlacks, hylacks, hxvalue.valueEq hyvalue, hx.beq_congr hy hxx hyy]

end

theorem assess_basicEq (b : Bool) (x y : Expr) :
    assess row b (binary .basicEq x y) = (!(x.evaluate row).isNull && !(y.evaluate row).isNull &&
        (x.evaluate row).valueEq (y.evaluate row)) := by
  change Json.isTruthy (if (x.evaluate row).isNull || (y.evaluate row).isNull
    then .null else .bool _) = _
  cases (x.evaluate row).isNull
  · cases (y.evaluate row).isNull <;> rfl
  · rfl

theorem any_set_congr {set set' : List Json} (h : (set == set')) (v : Json) :
    set.any Json.isNull = set'.any Json.isNull ∧
      (set.filter (!·.isNull)).any v.valueEq = (set'.filter (!·.isNull)).any v.valueEq := by
  induction set generalizing set' with
  | nil =>
    cases set' with
    | nil => exact ⟨rfl, rfl⟩
    | cons => cases h
  | cons u rest ih =>
    cases set' with
    | nil => cases h
    | cons u' rest' =>
      rw [cons_beq_cons, and_eq_true] at h
      obtain ⟨hnull, hvalue⟩ := ih h.2
      simp only [any_filter] at hvalue
      simp [Json.isNull_congr h.1, Json.valueEq_congr_right v h.1, hnull, hvalue]

theorem Check.congr (h : Check row e) (heq : Equal e y) (b : Bool) :
    judge (assess row) b e = judge (assess row) b y := by
  have hprobe : ∀ {op : Unary} {path : Path} {y : Expr}, Equal (unary op (Expr.field path)) y →
      y = unary op (Expr.field path) := by
    intro op path y heq
    obtain ⟨x, rfl, hx⟩ := heq.unary
    rw [hx.var]
    rfl
  -- sets are compared value by value
  have hmember : ∀ {path : Path} {set : List Json} {y : Expr},
    Equal (Expr.member (Expr.field path) set) y →
      judge (assess row) b (Expr.member (Expr.field path) set) = judge (assess row) b y := by
    intro path set y heq
    obtain ⟨x, set', rfl, hx, hset⟩ := heq.member
    rw [hx.var, judge_of_isLogical rfl, judge_of_isLogical rfl]
    have hsets := any_set_congr hset (row.lookup path)
    exact if_congr Iff.rfl hsets.1 hsets.2
  cases h with
  | plain h =>
    cases h with
    | missing => rw [hprobe heq]
    | member => exact hmember heq
    | equal left right =>
      obtain ⟨x', y', rfl, hx, hy⟩ := heq.binary
      obtain ⟨hxvalue, -⟩ := left.alike row hx
      obtain ⟨hyvalue, -⟩ := right.alike row hy
      rw [judge_of_isLogical rfl, judge_of_isLogical rfl, assess_basicEq, assess_basicEq,
        hxvalue.isNull, hyvalue.isNull, hxvalue.valueEq hyvalue]
    | compare op left right =>
      obtain ⟨x', y', rfl, hx, hy⟩ := heq.binary
      obtain ⟨hxvalue, hxlacks⟩ := left.isTerm.alike row hx
      obtain ⟨hyvalue, hylacks⟩ := right.isTerm.alike row hy
      rw [judge_of_isLogical rfl, judge_of_isLogical rfl, assess, assess, hxlacks, hylacks,
        hxvalue.apply hyvalue]
  | missing | present => rw [hprobe heq]
  | member => exact hmember heq
  | @range path bounds limits =>
    obtain ⟨x', bounds', rfl, hx, hbounds⟩ := heq.range
    rw [judge_of_isLogical rfl, judge_of_isLogical rfl, assess, assess, hx.var]
    have hsame : Equal (Expr.field path) (var path .object) := hx.var ▸ hx
    clear heq
    -- bounds are equal one by one
    induction hbounds with
    | nil => rfl
    | cons hcd _ ih =>
      rw [forall_mem_cons] at limits
      rw [all_cons, all_cons, ih limits.2, hcd.1,
        compares_congr (.field path) limits.1.1.isTerm hsame hcd.2]
  | eq h =>
    obtain ⟨x', y', rfl, hx, hy⟩ := heq.binary
    rw [judge_of_isLogical rfl, judge_of_isLogical rfl]
    exact agree_congr h.terms.1 h.terms.2 hx hy
  | ne left right =>
    obtain ⟨x', y', rfl, hx, hy⟩ := heq.binary
    rw [judge_of_isLogical rfl, judge_of_isLogical rfl]
    exact congrArg (!·) (agree_congr left.isTerm right.isTerm hx hy)
  | compare op left right =>
    obtain ⟨x', y', rfl, hx, hy⟩ := heq.binary
    rw [judge_of_isLogical rfl, judge_of_isLogical rfl]
    exact compares_congr left.isTerm right.isTerm hx hy

theorem Plain.possible (h : Plain row e) : assess row false e → assess row true e := by
  cases h with
  | missing | member | equal => exact id
  | compare =>
    rw [assess, assess]
    split
    · exact fun _ => rfl
    · exact id

/-- A comparison of operands that are in order may be turned round. -/
theorem Plain.turn (h : Plain row (binary (.basicCompare op) x y)) :
    Plain row (binary (.basicCompare op.negate) x y) ∧
      ∀ b, assess row b (binary (.basicCompare op.negate) x y) =
        !assess row (!b) (binary (.basicCompare op) x y) := by
  cases h with
  | compare _ left right ranked =>
    refine ⟨.compare _ left right ranked, fun b => ?_⟩
    rw [assess, assess]
    split
    · exact (not_not b).symm
    next hpresent =>
      rw [not_eq_true, or_eq_false_iff] at hpresent
      exact op.apply_negate (ranked hpresent.1 hpresent.2)

theorem judgeable_check (row : Json) : Judgeable (Check row) (assess row) where
  plain h := by
    cases h with
    | plain h => cases h <;> exact ⟨rfl, rfl⟩
    | _ => exact ⟨rfl, rfl⟩
  holds_bool _ _ := rfl
  holds_null := rfl
  possible h := by
    cases h with
    | plain h => exact h.possible
    | _ => exact id
  congr := Check.congr
  type h := by
    cases h with
    | plain h => cases h <;> rfl
    | _ => rfl
  turn h := by
    cases h with
    | plain h => exact ⟨.plain h.turn.1, h.turn.2⟩

theorem judgeable_plain (row : Json) : Judgeable (Plain row) (assess row) where
  plain h := (judgeable_check row).plain (.plain h)
  holds_bool := (judgeable_check row).holds_bool
  holds_null := rfl
  possible := Plain.possible
  congr h := Check.congr (.plain h)
  type h := (judgeable_check row).type (.plain h)
  turn := Plain.turn

/-- A test that a pass leaves may be replaced by its value. -/
theorem Plain.narrows_evaluate (h : Plain row e) :
    Narrows (judge (assess row)) e (const (e.evaluate row)) ∧
      (e.evaluate row).isTruthValue := by
  have hplain := (judgeable_plain row).plain h
  have hof : (∀ b, assess row b e = (e.evaluate row).isTruthy) →
      Narrows (judge (assess row)) e (const (e.evaluate row)) := fun heq =>
    .of_eq fun b => by
      rw [judge_of_isLogical hplain.1, judge_of_isLogical rfl, heq]
      rfl
  cases h with
  | missing => exact ⟨hof fun _ => rfl, rfl⟩
  | @member path set present =>
    -- null is not in the set anymore
    have hset : set.filter (!·.isNull) = set := by
      rw [filter_eq_self]
      intro v hv
      rw [any_eq_false] at present
      exact (not_eq_true' _).mpr (not_eq_true _ ▸ present v hv)
    refine ⟨hof fun b => ?_, rfl⟩
    rw [assess, hset]
    rfl
  | equal =>
    refine ⟨hof fun _ => rfl, ?_⟩
    change Json.isTruthValue (if _ then _ else _)
    split <;> rfl
  | @compare op x y left right =>
    -- without a value it is open whether a comparison holds
    have hvalue : (binary (.basicCompare op) x y).evaluate row =
        if (x.evaluate row).isNull || (y.evaluate row).isNull then .null
        else .bool (op.apply (x.evaluate row) (y.evaluate row)) := rfl
    constructor
    · constructor
      · rw [judge_of_isLogical rfl, judge_of_isLogical rfl, assess]
        split
        · exact fun h => Bool.noConfusion h
        next hpresent =>
          rw [not_eq_true, or_eq_false_iff] at hpresent
          rw [hvalue, left.isTerm.isNull_of_lacks hpresent.1,
            right.isTerm.isNull_of_lacks hpresent.2]
          exact id
      · rw [judge_of_isLogical rfl, judge_of_isLogical rfl, assess, hvalue]
        split
        · exact fun h => Bool.noConfusion h
        · intro h
          split
          · rfl
          · exact h
    · rw [hvalue]
      split <;> rfl

/-- After a pass the judgement is that of the value. -/
theorem narrows_evaluate (h : Formula (Plain row) e) :
    Narrows (judge (assess row)) e (const (e.evaluate row)) ∧
      (e.evaluate row).isTruthValue :=
  (judgeable_plain row).narrows_evaluate Plain.narrows_evaluate h

end

end Expr

end Snowbank
