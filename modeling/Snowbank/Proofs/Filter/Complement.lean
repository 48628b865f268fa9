import Snowbank.Proofs.Filter.Condition
import Snowbank.Proofs.Simplify.Idempotent

/-!
# A Filter and Its Negation

Simplifying a negation pushes it to the tests and turns comparisons round. A
document whose comparisons are all in order is then selected by a filter or by
its negation, and not by both. Where a field holds a value that is in no order
with what it is compared with, neither the comparison nor the turned one holds.

## Main definitions

* `IsCondition`: Filters over fields whose types are not known.
* `comparesInOrder`: What the node compares is in order on a document.

## Theorems

* `isTruthy_simplify_not`: A filter and its negation divide the documents.
-/

namespace Snowbank.Expr

open List Bool

variable {row : Json}

/-- What the rules give for a test leaves no more open, and what they do not
    ask to be simplified again is made of tests that a pass leaves. -/
def Checked (row : Json) (e : Expr) : Reduct → Prop
  | .done r => Formula (Plain row) r ∧ Narrows (judge (assess row)) e r
  | .again r => Formula (Check row) r ∧ Narrows (judge (assess row)) e r

section

variable {e : Expr}

theorem Formula.check (h : Formula (Plain row) e) : Formula (Check row) e := by
  induction h with
  | const truth => exact .const truth
  | atom h => exact .atom (.plain h)
  | logical hlogical _ ih => exact .logical hlogical ih

theorem judge_bool (b t : Bool) : judge (assess row) b (const (.bool t)) = t :=
  judge_of_isLogical rfl b

/-- The test for a missing operand is judged as the operand lacks a value. The
    document itself is never missing. -/
theorem IsTerm.missingPlain {x : Expr} (hrow : row.isMissing = false) (h : IsTerm x) :
    Formula (Plain row) (missingPlain x) ∧
      ∀ b, judge (assess row) b (missingPlain x) = lacks row x := by
  cases h with
  | const v => exact ⟨.const rfl, fun b => judge_bool b _⟩
  | field path =>
    have hcases : Expr.missingPlain (Expr.field path) =
        if path == .root then no else unary .missing (Expr.field path) := rfl
    rw [hcases]
    split
    next hroot =>
      refine ⟨.const rfl, fun b => (judge_bool b false).trans ?_⟩
      change false = (row.lookup path).isMissing
      rw [Json.lookup, if_pos hroot, hrow]
    next hbelow =>
      exact ⟨.atom (.missing (not_eq_true _ ▸ hbelow)), fun b => judge_of_isLogical rfl b⟩

variable {x y : Expr}

theorem IsTerm.alternatives?_eq (h : IsTerm x) : x.alternatives? = none := by
  cases h <;> rfl

/-- Of two terms that are not both known, one is a field, and any type goes with that. -/
theorem IsTerm.incompatible_eq (hx : IsTerm x) (hy : IsTerm y)
    (hopen : [x, y].all isConstant = false) : incompatible x.dataType y.dataType = false := by
  cases hx with
  | field => rfl
  | const v =>
    cases hy with
    | field =>
      change (_ && false && _ && _) = false
      rw [Bool.and_false, Bool.false_and, Bool.false_and]
    | const => cases hopen

theorem lacks_of_isNull (h : x.isNull) : lacks row x := by
  rw [Settled.eq_null h]
  rfl

theorem IsTerm.agree_eq_lacks (hx : IsTerm x) (hy : lacks row y) : agree row x y = lacks row x := by
  rw [agree, hy, Bool.or_true, if_pos rfl, Bool.and_true]
  cases hsame : x == y with
  | false => rfl
  | true => rw [(hx.alike row hsame).2, hy, Bool.or_self]

theorem IsTerm.agree_eq_lacks_right (hx : IsTerm x) (hxlacks : lacks row x) (y : Expr) :
    agree row x y = lacks row y := by
  rw [agree, hxlacks, Bool.true_or, if_pos rfl, Bool.true_and]
  cases hsame : x == y with
  | false => rfl
  | true => rw [← (hx.alike row hsame).2, hxlacks, Bool.or_self]

section

variable (hrow : row.isMissing = false)
include hrow

/-- Equality is that both are missing, or both are there and equal. -/
theorem checked_reduceEq (hx : IsTerm x) (hy : IsTerm y)
    (hopen : [x, y].all isConstant = false) : Checked row (binary .eq x y) (reduceEq x y) := by
  obtain ⟨hxtest, hxlacks⟩ := hx.missingPlain hrow
  obtain ⟨hytest, hylacks⟩ := hy.missingPlain hrow
  have hjudge : ∀ b, judge (assess row) b (binary .eq x y) = agree row x y :=
    fun b => judge_of_isLogical rfl b
  have hconnects := connects_judge (assess row)
  unfold reduceEq
  split
  next hnull =>
    refine ⟨hytest.check, .of_eq fun b => ?_⟩
    rw [hjudge, hylacks, hx.agree_eq_lacks_right (lacks_of_isNull hnull)]
  split
  next hnull =>
    refine ⟨hxtest.check, .of_eq fun b => ?_⟩
    rw [hjudge, hxlacks, hx.agree_eq_lacks (lacks_of_isNull hnull)]
  split
  next hsame =>
    refine ⟨.const rfl, .of_eq fun b => ?_⟩
    rw [hjudge, agree, hsame, Bool.true_or]
    exact (judge_bool b true).symm
  rename_i hdiffer
  rw [not_eq_true] at hdiffer
  rw [hx.alternatives?_eq, hy.alternatives?_eq, hx.incompatible_eq hy hopen]
  refine ⟨(judgeable_check row).judges.test_case.2 ⟨?_, .atom (.plain (.equal hx hy))⟩,
    .of_eq fun b => ?_⟩
  · exact forall_mem_cons.2 ⟨⟨hxtest.check, hytest.check⟩,
      forall_mem_singleton.2 ⟨hytest.check, .const rfl⟩⟩
  · rw [hjudge, agree, hdiffer, Bool.false_or]
    simp only [hconnects.holds_case_cons, hconnects.holds_case_nil, hconnects.holds_when, hxlacks,
      hylacks, judge_bool, judge_of_isLogical (e := binary .basicEq x y) rfl, assess_basicEq]
    cases hxl : lacks row x with
    | true => cases lacks row y <;> rfl
    | false =>
      cases hyl : lacks row y with
      | true => rfl
      | false =>
        rw [hx.isNull_of_lacks hxl, hy.isNull_of_lacks hyl]
        rfl

theorem checked_reduceCompare (op : Inequality)
    (hx : IsOperand x) (hy : IsOperand y) (hranked : Ranked row x y)
    (hopen : [x, y].all isConstant = false) :
    Checked row (binary (.compare op) x y) (reduceBinary (.compare op) x y) := by
  obtain ⟨hxtest, hxlacks⟩ := hx.isTerm.missingPlain hrow
  obtain ⟨hytest, hylacks⟩ := hy.isTerm.missingPlain hrow
  have hjudge : ∀ b, judge (assess row) b (binary (.compare op) x y) = compares row op x y :=
    fun b => judge_of_isLogical rfl b
  have hconnects := connects_judge (assess row)
  have J := (judgeable_check row).judges
  rw [reduceBinary]
  split
  next hnull =>
    refine ⟨.const rfl, .of_eq fun b => ?_⟩
    rw [hjudge, compares]
    refine Eq.trans ?_ (judge_bool b false).symm
    rcases Bool.or_eq_true _ _ ▸ hnull with hnull | hnull
    · rw [lacks_of_isNull hnull, Bool.not_true, Bool.false_and, Bool.false_and]
    · rw [lacks_of_isNull hnull, Bool.not_true, Bool.and_false, Bool.false_and]
  · have hpairs : pairings x y (binary (.basicCompare op)) =
        [and [presentPlain x, presentPlain y, binary (.basicCompare op) x y]] := by
      rw [pairings, branches, branches, hx.isTerm.alternatives?_eq, hy.isTerm.alternatives?_eq]
      simp [filterMap_cons, hx.isTerm.incompatible_eq hy.isTerm hopen]
    rw [hpairs]
    refine ⟨J.test_or.2 (forall_mem_singleton.2 (J.test_and.2 ?_)), .of_eq fun b => ?_⟩
    · exact forall_mem_cons.2 ⟨J.test_not.2 hxtest.check, forall_mem_cons.2
        ⟨J.test_not.2 hytest.check,
          forall_mem_singleton.2 (.atom (.plain (.compare op hx hy hranked)))⟩⟩
    · rw [hjudge, compares]
      simp only [hconnects.holds_or, hconnects.holds_and, any_cons, any_nil,
        all_cons, all_nil, presentPlain, hconnects.holds_not, hxlacks, hylacks,
        Bool.or_false, Bool.and_true, judge_of_isLogical (e := binary (.basicCompare op) x y) rfl,
        assess]
      cases lacks row x <;> cases lacks row y <;> rfl

/-- Membership is that the value is missing and may be, or equals one of the others. -/
theorem checked_reduceMember (path : Path) (set : List Json) :
    Checked row (member (field path) set) (reduceMember (field path) set) := by
  obtain ⟨htest, hlacks⟩ := (IsTerm.field path).missingPlain hrow
  have hjudge : ∀ b set, judge (assess row) b (member (field path) set) =
      if lacks row (field path) then set.any Json.isNull
      else (set.filter (!·.isNull)).any (row.lookup path).valueEq :=
    fun b set => judge_of_isLogical rfl b
  have hconnects := connects_judge (assess row)
  have J := (judgeable_check row).judges
  unfold reduceMember
  split
  · refine ⟨.const rfl, .of_eq fun b => ?_⟩
    rw [hjudge, any_nil, filter_nil, any_nil, ite_self]
    exact (judge_bool b false).symm
  split
  next hnull =>
    refine ⟨J.test_or.2 (forall_mem_cons.2 ⟨htest.check,
      forall_mem_singleton.2 (.atom (.member path _))⟩), .of_eq fun b => ?_⟩
    rw [hconnects.holds_or, any_cons, any_cons, any_nil, Bool.or_false, hlacks,
      hjudge, hjudge, hnull, filter_filter]
    simp only [Bool.and_self]
    cases lacks row (field path) <;> rfl
  next hnull =>
    rw [Bool.not_eq_true] at hnull
    split
    next value _ =>
      rw [any_cons, any_nil, Bool.or_false] at hnull
      refine ⟨.atom (.eq (.value path value)), .of_eq fun b => ?_⟩
      rw [hjudge, judge_of_isLogical rfl]
      change _ = (beq _ _ || if _ || value.isNull then _ && value.isNull else _)
      simp only [field, beq, hnull, Bool.false_or, Bool.or_false, Bool.and_false, any_cons,
        any_nil, filter_cons, filter_nil, Bool.not_false, if_true]
      rfl
    · exact ⟨.atom (.member path hnull), .refl _⟩

end

/-- A test whose operands are all known may be replaced by its value. -/
theorem Check.narrows_evaluate (h : Check row e) (hknown : e.children.all isConstant) :
    Narrows (judge (assess row)) e (const (e.evaluate row)) ∧
      (e.evaluate row).isTruthValue := by
  -- equal leaves are equal values, and missing only if they are null
  have hagree : ∀ {u v : Json}, u.IsLeaf → v.IsLeaf →
      agree row (const u) (const v) = u.nullEq v := by
    intro u v hu hv
    rw [Json.nullEq, hu.isMissing, hv.isMissing]
    have hsame : (const u == const v) = (u == v) := by
      change beq _ _ = _
      rw [beq]
    change ((const u == const v) || if u.isNull || v.isNull then u.isNull && v.isNull
      else u.valueEq v) = _
    rw [hsame]
    cases huv : u == v with
    | false => rw [Bool.false_or]
    | true =>
      rw [Bool.true_or, ← Json.isNull_congr huv, ← Json.valueEq_congr_right u huv,
        Json.valueEq_self hu, Bool.or_self, Bool.and_self]
      split
      next hnull => exact hnull.symm
      · rfl
  have hconst : ∀ {x : Expr}, IsOperand x → x.isConstant → ∃ v, x = const v ∧ v.IsLeaf := by
    intro x hx hconst
    cases hx with
    | field => cases hconst
    | const leaf => exact ⟨_, rfl, leaf⟩
  have hpair : ∀ {x y : Expr}, [x, y].all isConstant → x.isConstant ∧ y.isConstant := by
    intro x y hall
    rw [all_cons, all_cons, and_eq_true, and_eq_true] at hall
    exact ⟨hall.1, hall.2.1⟩
  cases h with
  | plain h => exact h.narrows_evaluate
  | missing | present | member | range => cases hknown
  | eq h =>
    cases h with
    | value => cases hknown
    | operands left right =>
      obtain ⟨u, rfl, hu⟩ := hconst left (hpair hknown).1
      obtain ⟨v, rfl, hv⟩ := hconst right (hpair hknown).2
      refine ⟨.of_eq fun b => ?_, rfl⟩
      rw [judge_of_isLogical rfl, judge_of_isLogical rfl, assess, hagree hu hv]
      rfl
  | ne left right =>
    obtain ⟨u, rfl, hu⟩ := hconst left (hpair hknown).1
    obtain ⟨v, rfl, hv⟩ := hconst right (hpair hknown).2
    refine ⟨.of_eq fun b => ?_, rfl⟩
    rw [judge_of_isLogical rfl, judge_of_isLogical rfl, assess, hagree hu hv]
    rfl
  | @compare op x y left right ranked =>
    refine ⟨.of_eq fun b => ?_, rfl⟩
    rw [judge_of_isLogical rfl, judge_of_isLogical rfl, assess, compares, left.lacks_eq,
      right.lacks_eq]
    rfl

/-- Folding a test and applying the rules to it are sound. -/
theorem Check.checked_rewrite (hrow : row.isMissing = false) (h : Check row e) :
    Checked row e e.rewrite := by
  have hfold : e.isFoldable := by
    cases h with
    | plain h => cases h <;> rfl
    | _ => rfl
  have hconnects := connects_judge (assess row)
  have J := (judgeable_check row).judges
  rw [rewrite, hfold, Bool.true_and]
  split
  next hknown =>
    obtain ⟨hnarrows, htruth⟩ := h.narrows_evaluate hknown
    rw [evaluate_null_eq hfold hknown _ row]
    exact ⟨.const htruth, hnarrows⟩
  next hopen =>
    rw [Bool.not_eq_true] at hopen
    -- the test of a field is itself, except at the root
    have hmissing : ∀ path, Checked row (unary .missing (Expr.field path))
        (unary .missing (Expr.field path)).reduce := by
      intro path
      obtain ⟨htest, hlacks⟩ := (IsTerm.field path).missingPlain hrow
      rw [reduce, reduceUnary]
      split
      next hself =>
        refine ⟨.atom (.missing ?_), .refl _⟩
        by_contra hroot
        rw [Bool.not_eq_false] at hroot
        have hno : Expr.missingPlain (Expr.field path) = no := if_pos hroot
        rw [hno] at hself
        change beq no _ = true at hself
        simp [no, beq] at hself
      · exact ⟨htest.check, .of_eq fun b => (judge_of_isLogical rfl b).trans (hlacks b).symm⟩
    cases h with
    | plain h =>
      cases h with
      | missing => exact hmissing _
      | member path present => exact checked_reduceMember hrow path _
      | equal left right => exact ⟨.atom (.equal left right), .refl _⟩
      | compare op left right ranked => exact ⟨.atom (.compare op left right ranked), .refl _⟩
    | missing path => exact hmissing path
    | present path =>
      refine ⟨J.test_not.2 (.atom (.missing path)), .of_eq fun b => ?_⟩
      rw [hconnects.holds_not, judge_of_isLogical rfl, judge_of_isLogical rfl]
      rfl
    | member path set => exact checked_reduceMember hrow path set
    -- a range is the conjunction of its comparisons
    | @range path bounds limits =>
      refine ⟨J.test_and.2 fun t ht => ?_, .of_eq fun b => ?_⟩
      · obtain ⟨limit, hlimit, rfl⟩ := mem_map.1 ht
        exact .atom (.compare _ (.field path) (limits limit hlimit).1 (limits limit hlimit).2)
      · have hcompare : ∀ op y, judge (assess row) b (binary (.compare op) (Expr.field path) y) =
            compares row op (Expr.field path) y := fun op y => judge_of_isLogical rfl b
        rw [hconnects.holds_and, all_map]
        refine (judge_of_isLogical rfl b).trans (congrArg bounds.all (funext fun limit => ?_))
        exact (hcompare limit.1 limit.2).symm
    | eq h => exact checked_reduceEq hrow h.terms.1 h.terms.2 hopen
    | ne left right =>
      refine ⟨J.test_not.2 (.atom (.eq (.operands left right))), .of_eq fun b => ?_⟩
      rw [hconnects.holds_not, judge_of_isLogical rfl, judge_of_isLogical rfl]
      rfl
    | compare op left right ranked => exact checked_reduceCompare hrow op left right ranked hopen

end

section

variable {e r : Expr}

theorem Check.isTerm (h : Check row e) : ∀ c ∈ e.children, IsTerm c := by
  have hpair : ∀ {x y : Expr}, IsTerm x → IsTerm y → ∀ c ∈ [x, y], IsTerm c :=
    fun hx hy => forall_mem_cons.2 ⟨hx, forall_mem_singleton.2 hy⟩
  cases h with
  | plain h =>
    cases h with
    | missing | member => exact forall_mem_singleton.2 (.field _)
    | equal left right => exact hpair left right
    | compare op left right => exact hpair left.isTerm right.isTerm
  | missing | present | member => exact forall_mem_singleton.2 (.field _)
  | range path limits =>
    exact forall_mem_cons.2 ⟨.field path, forall_mem_map.2 fun b hb => (limits b hb).1.isTerm⟩
  | eq h => exact hpair h.terms.1 h.terms.2
  | ne left right | compare op left right => exact hpair left.isTerm right.isTerm

/-- Where no types are known a pass keeps the operands, and what it makes of a
    test is made of tests that it leaves. -/
theorem pass?_checked (hrow : row.isMissing = false) (h : pass? .untyped e = some r) :
    (IsTerm e → r = e) ∧
      (Formula (Check row) e → Formula (Plain row) r ∧ Narrows (judge (assess row)) e r) := by
  have hcheck := judgeable_check row
  have hplain := judgeable_plain row
  refine pass?_induction (P := fun e r => (IsTerm e → r = e) ∧
    (Formula (Check row) e → Formula (Plain row) r ∧ Narrows (judge (assess row)) e r)) ?_ ?_ ?_ h
  · refine fun path type => ⟨fun h => ?_, fun h => ?_⟩
    · cases h with
      | field => exact ite_self _
    · cases h with
      | atom h =>
        cases h with
        | plain h => cases h
      | logical hlogical => cases hlogical
  · refine fun path => ⟨fun h => (by cases h), fun h => ?_⟩
    cases h with
    | atom h =>
      cases h with
      | plain h => cases h
    | logical hlogical => cases hlogical
  · intro f e r hbound hkids hdone hagain
    constructor
    · intro h
      cases h with
      | field => cases hbound
      | const v => exact hdone _ rfl
    · intro h
      have hchecked : Narrows (judge (assess row)) e (e.mapChildren f) ∧
          Checked row (e.mapChildren f) (e.mapChildren f).rewrite := by
        cases h with
        | const truth => exact ⟨.refl _, .const truth, .refl _⟩
        | atom h =>
          rw [mapChildren_eq_self fun c hc => (hkids c hc).1 (h.isTerm c hc)]
          exact ⟨.refl _, h.checked_rewrite hrow⟩
        | logical hlogical h =>
          -- the operands are formulas of the tests that a pass leaves
          have hmapped := hcheck.judges.mapChildren hlogical (.logical hlogical h)
            fun c hc hchild => ⟨((hkids c hc).2 hchild).1.check, ((hkids c hc).2 hchild).2⟩
          have htest : Formula (Plain row) (e.mapChildren f) := by
            refine .logical hmapped.2.2 ?_
            rw [children_mapChildren]
            exact forall_mem_map.2 fun c hc => ((hkids c hc).2 (h c hc)).1
          have hnarrowed := hplain.judges.rewrite hmapped.2.2 htest
          refine ⟨hmapped.2.1, ?_⟩
          cases hrewrite : (e.mapChildren f).rewrite with
          | done x =>
            rw [hrewrite] at hnarrowed
            exact hnarrowed
          | again x =>
            rw [hrewrite] at hnarrowed
            exact ⟨hnarrowed.1.check, hnarrowed.2⟩
      cases hrewrite : (e.mapChildren f).rewrite with
      | done x =>
        rw [hrewrite] at hchecked
        rw [hdone x hrewrite]
        exact ⟨hchecked.2.1, hchecked.1.trans hchecked.2.2⟩
      | again x =>
        rw [hrewrite] at hchecked
        obtain ⟨htest, hnext⟩ := (hagain x hrewrite).2 hchecked.2.1
        exact ⟨htest, hchecked.1.trans (hchecked.2.2.trans hnext)⟩

/-- The value of what simplifying makes of a test lies between what certainly
    and what possibly held. -/
theorem Formula.simplify_between (hrow : row.isMissing = false) (hdefinite : e.Definite)
    (h : Formula (Check row) e) :
    (judge (assess row) false e → ((simplify .untyped e).evaluate row).isTruthy) ∧
      (((simplify .untyped e).evaluate row).isTruthy → judge (assess row) true e) := by
  obtain ⟨first, hfirst, hrest⟩ := simplify_of_definite stored_untyped hdefinite
  have hpassed := (pass?_checked hrow hfirst).2 h
  have hsettled : Formula (Plain row) first → Formula (Plain row) (simplify .untyped e) ∧
        Narrows (judge (assess row)) first (simplify .untyped e) := by
    refine settle?_induction (R := fun e r => Formula (Plain row) e →
      Formula (Plain row) r ∧ Narrows (judge (assess row)) e r) (fun e h => ⟨h, .refl e⟩)
      (fun hem hmr h => ?_) (fun hr h => (pass?_checked hrow hr).2 h.check) hrest
    exact ⟨(hmr (hem h).1).1, (hem h).2.trans (hmr (hem h).1).2⟩
  obtain ⟨hplain, hnarrows⟩ := hsettled hpassed.1
  obtain ⟨hvalue, htruth⟩ := narrows_evaluate hplain
  exact (judgeable_plain row).judges.between ((hpassed.2.trans hnarrows).trans hvalue) htruth

end

section

/-- Filters over fields: tests, comparisons with other fields and with null and
    single values, and the operators on truth values. -/
inductive IsCondition : Expr → Prop
  | missing (path : Path) : IsCondition (unary .missing (field path))
  | present (path : Path) : IsCondition (unary .present (field path))
  | member (path : Path) (set : List Json) : IsCondition (member (field path) set)
  | range (path : Path) {bounds : List (Inequality × Expr)} (limits : ∀ b ∈ bounds, IsOperand b.2) :
      IsCondition (range (field path) bounds)
  | eq {x y : Expr} (left : IsOperand x) (right : IsOperand y) : IsCondition (binary .eq x y)
  | ne {x y : Expr} (left : IsOperand x) (right : IsOperand y) : IsCondition (binary .ne x y)
  | compare (op : Inequality) {x y : Expr} (left : IsOperand x) (right : IsOperand y) :
      IsCondition (binary (.compare op) x y)
  | not {x : Expr} (h : IsCondition x) : IsCondition (not x)
  | and {terms : List Expr} (h : ∀ t ∈ terms, IsCondition t) : IsCondition (and terms)
  | or {terms : List Expr} (h : ∀ t ∈ terms, IsCondition t) : IsCondition (or terms)

/-- One of the values is missing, or they are in order. -/
def inOrder (u v : Json) : Bool := u.isMissing || v.isMissing || (Json.order? u v).isSome

/-- What the node itself compares is in order on a document, unless it is missing. -/
def comparesInOrder (row : Json) : Expr → Bool
  | binary (.compare _) x y => inOrder (x.evaluate row) (y.evaluate row)
  | range x bounds => bounds.all fun b => inOrder (x.evaluate row) (b.2.evaluate row)
  | _ => true

variable {f : Expr}

theorem IsOperand.ranked {x y : Expr} (hx : IsOperand x) (hy : IsOperand y)
    (h : inOrder (x.evaluate row) (y.evaluate row)) : Ranked row x y := by
  intro hxlacks hylacks
  rw [hx.lacks_eq] at hxlacks
  rw [hy.lacks_eq] at hylacks
  rwa [inOrder, hxlacks, hylacks, Bool.or_self, Bool.false_or] at h

/-- Where all comparisons are in order a filter is made of tests. -/
theorem IsCondition.formula (h : IsCondition f)
    (horder : ∀ n ∈ f.nodes, n.comparesInOrder row) : Formula (Check row) f := by
  induction h with
  | missing path => exact .atom (.missing path)
  | present path => exact .atom (.present path)
  | member path set => exact .atom (.member path set)
  | range path limits =>
    have hbounds := all_eq_true.1 (forall_mem_nodes.1 horder).1
    exact .atom (.range path fun b hb =>
      ⟨limits b hb, (IsOperand.field path).ranked (limits b hb) (hbounds b hb)⟩)
  | eq left right => exact .atom (.eq (.operands left right))
  | ne left right => exact .atom (.ne left right)
  | compare op left right =>
    exact .atom (.compare op left right (left.ranked right (forall_mem_nodes.1 horder).1))
  | not _ ih =>
    refine .logical rfl (forall_mem_singleton.2 (ih ?_))
    exact (forall_mem_nodes.1 horder).2 _ mem_cons_self
  | and _ ih | or _ ih =>
    exact .logical rfl fun t ht => ih t ht ((forall_mem_nodes.1 horder).2 t ht)

/-- A filter holds no basic comparison, so it leaves nothing open. -/
theorem IsCondition.judge_eq (h : IsCondition f) :
    judge (assess row) true f = judge (assess row) false f := by
  have hconnects := connects_judge (assess row)
  induction h with
  | not _ ih => rw [hconnects.holds_not, hconnects.holds_not, Bool.not_true, Bool.not_false, ih]
  | and _ ih =>
    rw [hconnects.holds_and, hconnects.holds_and, Bool.eq_iff_iff, all_eq_true, all_eq_true]
    exact forall₂_congr fun t ht => by rw [ih t ht]
  | or _ ih =>
    rw [hconnects.holds_or, hconnects.holds_or]
    exact any_congr_mem ih
  | _ => rw [judge_of_isLogical rfl, judge_of_isLogical rfl]; rfl

/-- What simplifying makes of a filter is true exactly when the filter is judged to hold. -/
theorem IsCondition.isTruthy_simplify_eq (h : IsCondition f) (hrow : row.isMissing = false)
    (hdefinite : f.Definite) (horder : ∀ n ∈ f.nodes, n.comparesInOrder row) :
    ((simplify .untyped f).evaluate row).isTruthy = judge (assess row) false f := by
  have hbetween := (h.formula horder).simplify_between hrow hdefinite
  rw [h.judge_eq] at hbetween
  rw [Bool.eq_iff_iff]
  exact ⟨hbetween.2, hbetween.1⟩

/-- A filter and its negation divide the documents whose comparisons are in
    order: after simplifying, such a document is selected by exactly one of
    them, whatever it holds at the fields. -/
theorem isTruthy_simplify_not {fields : List (String × Json)} (hf : f.IsCondition)
    (hdefinite : f.Definite) (horder : ∀ n ∈ f.nodes, n.comparesInOrder (.obj fields) = true) :
    ((simplify .untyped (not f)).evaluate (.obj fields)).isTruthy =
      !((simplify .untyped f).evaluate (.obj fields)).isTruthy := by
  have hnot : (Expr.not f).Definite :=
    (definite_iff _).mpr ⟨trivial, List.forall_mem_singleton.mpr hdefinite⟩
  have hnodes : ∀ n ∈ (Expr.not f).nodes, n.comparesInOrder (.obj fields) = true :=
    forall_mem_nodes.mpr ⟨rfl, List.forall_mem_singleton.mpr horder⟩
  rw [hf.not.isTruthy_simplify_eq rfl hnot hnodes, hf.isTruthy_simplify_eq rfl hdefinite horder,
    (connects_judge _).holds_not, Bool.not_false, hf.judge_eq]

/-- A filter with lists and missing values on both sides of negations. -/
def fannedFilter : Expr := or [not (and [binary (.compare .gt) (field "c") (const (.str "a")),
      member (field "a.b") [.int 3, .null]]),
    range (field "n") [(.gte, int 1), (.lt, field "c")],
    not (binary (.compare .lt) (field "d") (int 3)), binary .ne (field "a.b") (field "c")]

/-- A document with a list on the way to a field, and an empty one. -/
def fannedDocument : List (String × Json) :=
  [("a", .arr [.obj [("b", .int 2)], .obj [("b", .int 3)]]), ("c", .str "x"), ("d", .arr [])]

/-- Fields that are lists, missing and empty are on one side. -/
theorem isTruthy_simplify_not_fanned :
    fannedFilter.IsCondition ∧ fannedFilter.Definite ∧
      (∀ n ∈ fannedFilter.nodes, n.comparesInOrder (.obj fannedDocument) = true) ∧
      ((simplify .untyped (not fannedFilter)).evaluate (.obj fannedDocument)).isTruthy =
        !((simplify .untyped fannedFilter).evaluate (.obj fannedDocument)).isTruthy := by
  have hcondition : fannedFilter.IsCondition := by
    refine .or ?_
    simp only [List.forall_mem_cons]
    refine ⟨.not (.and ?_), .range _ ?_, .not (.compare _ (.field _) (.const rfl)),
      .ne (.field _) (.field _), List.forall_mem_nil _⟩
    · exact List.forall_mem_cons.mpr ⟨.compare _ (.field _) (.const trivial),
        List.forall_mem_singleton.mpr (.member _ _)⟩
    · exact List.forall_mem_cons.mpr ⟨.const rfl, List.forall_mem_singleton.mpr (.field _)⟩
  have hdefinite : fannedFilter.Definite := by
    change beq _ _ = true
    simp only [fannedFilter, not, and, or, field, int, beq, beqList, beqBounds]
    decide
  have horder : ∀ n ∈ fannedFilter.nodes, n.comparesInOrder (.obj fannedDocument) = true :=
    List.all_eq_true.mp (by decide +kernel)
  exact ⟨hcondition, hdefinite, horder, isTruthy_simplify_not hcondition hdefinite horder⟩

end

end Snowbank.Expr
