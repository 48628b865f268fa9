import Snowbank.Proofs.Expr.Narrows
import Snowbank.Proofs.Simplify.Normal

/-!
# Operators on Truth Values Are Simplified Soundly

The rules for conjunctions, disjunctions, negations and choices give tests that
leave no more open than what they replace. Most of them change nothing at all.
Something becomes decided where a term stands beside its negation, where all
branches of a choice are equal, and where null is dropped.

That holds of every judgement that goes through these operators and of every
class of tests that they keep, as long as equal tests are judged alike and
comparisons may be turned round.

## Main definitions

* `Judges`: What the rules ask of a judgement and of the tests it judges.
* `Formula`: Atoms and truth values under the operators on truth values.
* `Judgeable`: What the rules ask of atoms.

## Theorems

* `Judges.rewrite`: The rules leave no more open.
* `Judgeable.judges`: A judgement of atoms goes through the operators.
-/

namespace Snowbank

open List
open Bool (and_eq_true noConfusion not_eq_true not_eq_true' or_eq_true)

variable {e x : Expr}

/-- The types that tests have: a field that is not typed yet may be one. -/
def DataType.isTruth : DataType → Bool
  | .null | .boolean | .object => true
  | _ => false

namespace Expr

theorem isTruth_union {types : List DataType} (h : ∀ t ∈ types, t.isTruth) :
    (DataType.union types).isTruth := by
  have hmerge : ∀ {a b : DataType}, a.isTruth → b.isTruth →
      (a.merge b).isTruth := by
    intro a b
    cases a <;> cases b <;> decide
  have hfrom : ∀ (rest : List DataType) (seen : DataType), seen.isTruth →
      (∀ t ∈ rest, t.isTruth) → (DataType.unionFrom seen rest).isTruth := by
    intro rest
    induction rest with
    | nil => exact fun seen hseen _ => hseen
    | cons t rest ih =>
      intro seen hseen hrest
      rw [forall_mem_cons] at hrest
      by_cases hnull : t = .null
      · subst hnull
        exact ih seen hseen hrest.2
      · rw [DataType.unionFrom]
        · split
          · rfl
          · exact ih _ (hmerge hseen hrest.1) hrest.2
        · exact hnull
  unfold DataType.union
  split
  · rfl
  next first rest hfilter =>
    have hmem : ∀ t ∈ first :: rest, t.isTruth := by
      intro t ht
      rw [← hfilter] at ht
      exact h t (mem_filter.1 ht).1
    rw [forall_mem_cons] at hmem
    exact hfrom rest first hmem.1 hmem.2

theorem not_countsWhenPresent_of_isTruth {type : DataType} (h : type.isTruth) :
    countsWhenPresent type = false := by
  cases type with
  | null | boolean | object => rfl
  | _ => cases h

/-- An operator on truth values has the type of one, if its operands have. -/
theorem isTruth_dataType (hlogical : e.isLogical)
    (h : ∀ c ∈ e.children, c.dataType.isTruth) : e.dataType.isTruth := by
  unfold isLogical at hlogical
  split at hlogical
  · rfl
  · rfl
  · rfl
  · simp only [children, forall_mem_cons] at h
    exact isTruth_union (forall_mem_cons.2 ⟨h.2.1, forall_mem_singleton.2 h.2.2.1⟩)
  next clauses other =>
    rw [forall_mem_children] at h
    have htypes : ∀ t ∈ clauseTypes clauses, t.isTruth := by
      obtain ⟨h, -⟩ := h
      induction clauses with
      | nil => exact forall_mem_nil _
      | cons c rest ih =>
        rw [forall_mem_cons] at h
        exact forall_mem_cons.2 ⟨h.1.2, ih h.2⟩
    exact isTruth_union (forall_mem_append.2 ⟨htypes, forall_mem_singleton.2 h.2⟩)
  · cases hlogical

/-- What the rules for operators on truth values ask of a judgement and of the
    tests that it judges. -/
structure Judges (Test : Expr → Prop) (holds : Bool → Expr → Bool) : Prop
    extends Connects holds where
  holds_bool : ∀ b t, holds b (const (.bool t)) = t
  holds_null : holds false null = false
  possible : ∀ {e}, Test e → holds false e → holds true e
  congr : ∀ {x y}, Test x → Equal x y → ∀ b, holds b x = holds b y
  /-- A test does not count as true for being there. -/
  type : ∀ {x}, Test x → countsWhenPresent x.dataType = false
  /-- A comparison is negated by turning it round. -/
  turn : ∀ {op x y}, Test (binary (.basicCompare op) x y) →
    Test (binary (.basicCompare op.negate) x y) ∧
      ∀ b, holds b (binary (.basicCompare op.negate) x y) =
        !holds (!b) (binary (.basicCompare op) x y)
  test_const : ∀ {v}, Test (const v) ↔ v.isTruthValue
  test_not : ∀ {x}, Test (not x) ↔ Test x
  test_and : ∀ {terms}, Test (and terms) ↔ ∀ t ∈ terms, Test t
  test_or : ∀ {terms}, Test (or terms) ↔ ∀ t ∈ terms, Test t
  test_when : ∀ {cond x y}, Test (when cond x y) ↔ Test cond ∧ Test x ∧ Test y
  test_case : ∀ {clauses other}, Test (case clauses other) ↔
    (∀ c ∈ clauses, Test c.1 ∧ Test c.2) ∧ Test other

/-- What a rule gives for a node is a test that leaves no more open. -/
def Narrowed (Test : Expr → Prop) (holds : Bool → Expr → Bool) (e : Expr) : Reduct → Prop
  | .done r | .again r => Test r ∧ Narrows holds e r

namespace Judges

variable {Test : Expr → Prop} {holds : Bool → Expr → Bool} (J : Judges Test holds)

include J

theorem holds_yes (b : Bool) : holds b yes := J.holds_bool b true

theorem holds_no (b : Bool) : holds b no = false := J.holds_bool b false

theorem test_yes : Test yes := J.test_const.2 rfl

theorem test_no : Test no := J.test_const.2 rfl

/-- A test that is never certain leaves no less open than a false one. -/
theorem narrows_no (h : holds false e = false) : Narrows holds e no := by
  refine ⟨fun hcertain => ?_, fun hno => ?_⟩
  · rw [h] at hcertain
    cases hcertain
  · rw [J.holds_no] at hno
    cases hno

/-- A test that is always possible leaves no less open than a true one. -/
theorem narrows_yes (h : holds true e) : Narrows holds e yes :=
  ⟨fun _ => J.holds_yes false, fun _ => h⟩

theorem reduceNot (h : Test x) : Narrowed Test holds (not x) (reduceNot x) := by
  unfold Expr.reduceNot
  split
  · exact ⟨J.test_no, .of_eq fun b => by rw [J.holds_not, J.holds_yes, J.holds_no]; rfl⟩
  · exact ⟨J.test_yes, .of_eq fun b => by rw [J.holds_not, J.holds_yes, J.holds_no]; rfl⟩
  · -- null may be open, and its negation is then taken to hold
    refine ⟨J.test_yes, J.narrows_yes ?_⟩
    rw [J.holds_not, Bool.not_true, J.holds_null, Bool.not_false]
  · refine ⟨J.test_not.1 h, .of_eq fun b => ?_⟩
    rw [J.holds_not, J.holds_not, Bool.not_not, Bool.not_not]
  -- a negation goes to the terms, under the other connective
  next terms =>
    refine ⟨J.test_or.2 (fun t ht => ?_), .of_eq fun b => ?_⟩
    · obtain ⟨u, hu, rfl⟩ := mem_map.1 ht
      exact J.test_not.2 (J.test_and.1 h u hu)
    · rw [J.holds_not, J.holds_and, J.holds_or, not_all_eq_any_not, any_map]
      exact congrArg terms.any (funext fun t => (J.holds_not b t).symm)
  next terms =>
    refine ⟨J.test_and.2 (fun t ht => ?_), .of_eq fun b => ?_⟩
    · obtain ⟨u, hu, rfl⟩ := mem_map.1 ht
      exact J.test_not.2 (J.test_or.1 h u hu)
    · rw [J.holds_not, J.holds_or, J.holds_and, not_any_eq_all_not, all_map]
      exact congrArg terms.all (funext fun t => (J.holds_not b t).symm)
  · -- a basic comparison is turned round
    obtain ⟨htest, hturned⟩ := J.turn h
    exact ⟨htest, .of_eq fun b => by rw [J.holds_not, hturned]⟩
  · rw [J.type h]
    exact ⟨J.test_not.2 h, .refl _⟩

section

variable {b : Bool} {terms seen : List Expr}

theorem all_pushNew (he : Test e) :
    (pushNew seen e).all (holds b) = (seen.all (holds b) && holds b e) := by
  unfold pushNew
  split
  -- the term that is dropped equals one that is there
  next hmem =>
    obtain ⟨t, ht, heq⟩ := contains_iff_exists_mem_beq.1 hmem
    rw [J.congr he heq, Bool.eq_iff_iff, and_eq_true]
    exact ⟨fun h => ⟨h, all_eq_true.1 h t ht⟩, fun h => h.1⟩
  · rw [all_append, all_cons, all_nil, Bool.and_true]

theorem any_pushNew (he : Test e) :
    (pushNew seen e).any (holds b) = (seen.any (holds b) || holds b e) := by
  unfold pushNew
  split
  next hmem =>
    obtain ⟨t, ht, heq⟩ := contains_iff_exists_mem_beq.1 hmem
    rw [J.congr he heq, Bool.eq_iff_iff, or_eq_true]
    exact ⟨.inl, fun h => h.elim id (fun h => any_eq_true.2 ⟨t, ht, h⟩)⟩
  · rw [any_append, any_cons, any_nil, Bool.or_false]

theorem all_foldl_pushNew (h : ∀ t ∈ terms, Test t) :
    (terms.foldl pushNew seen).all (holds b) = (seen.all (holds b) && terms.all (holds b)) := by
  induction terms generalizing seen with
  | nil => rw [foldl_nil, all_nil, Bool.and_true]
  | cons e rest ih =>
    rw [forall_mem_cons] at h
    rw [foldl_cons, ih h.2, J.all_pushNew h.1, all_cons, Bool.and_assoc]

theorem any_foldl_pushNew (h : ∀ t ∈ terms, Test t) :
    (terms.foldl pushNew seen).any (holds b) = (seen.any (holds b) || terms.any (holds b)) := by
  induction terms generalizing seen with
  | nil => rw [foldl_nil, any_nil, Bool.or_false]
  | cons e rest ih =>
    rw [forall_mem_cons] at h
    rw [foldl_cons, ih h.2, J.any_pushNew h.1, any_cons, Bool.or_assoc]

theorem all_spread (e : Expr) : (e.spread .and).all (holds b) = holds b e := by
  rcases spread_cases .and e with ⟨inner, rfl, hspread⟩ | ⟨_, hspread⟩
  · rw [hspread, J.holds_and]
  · rw [hspread, all_cons, all_nil, Bool.and_true]

theorem any_spread (e : Expr) : (e.spread .or).any (holds b) = holds b e := by
  rcases spread_cases .or e with ⟨inner, rfl, hspread⟩ | ⟨_, hspread⟩
  · rw [hspread, J.holds_or]
  · rw [hspread, any_cons, any_nil, Bool.or_false]

/-- A term that is decided and does not refute a conjunction is true. -/
theorem all_flattened (h : terms.any isRefuted = false) :
    (flattened .and terms).all (holds b) = terms.all (holds b) := by
  induction terms with
  | nil => rfl
  | cons e rest ih =>
    rw [any_cons, Bool.or_eq_false_iff] at h
    by_cases hdecided : e.isDecided
    · have hyes : holds b e := by
        unfold isDecided at hdecided
        split at hdecided
        · exact J.holds_yes b
        · exact noConfusion h.1
        · exact noConfusion h.1
        · cases hdecided
      rw [flattened_cons_decided hdecided, ih h.2, all_cons, hyes, Bool.true_and]
    · rw [flattened_cons (not_eq_true _ ▸ hdecided), all_append, J.all_spread, ih h.2, all_cons]

/-- A term that is decided and does not affirm a disjunction is not certain. -/
theorem any_flattened (h : terms.any isAffirmed = false) :
    (terms.any (holds false) → (flattened .or terms).any (holds false)) ∧
      ((flattened .or terms).any (holds true) → terms.any (holds true)) := by
  induction terms with
  | nil => exact ⟨id, id⟩
  | cons e rest ih =>
    rw [any_cons, Bool.or_eq_false_iff] at h
    have hrest := ih h.2
    by_cases hdecided : e.isDecided
    · have hno : holds false e = false := by
        unfold isDecided at hdecided
        split at hdecided
        · exact noConfusion h.1
        · exact J.holds_no false
        · exact J.holds_null
        · cases hdecided
      rw [flattened_cons_decided hdecided, any_cons, any_cons, hno, Bool.false_or, or_eq_true]
      exact ⟨hrest.1, fun hany => .inr (hrest.2 hany)⟩
    · rw [flattened_cons (not_eq_true _ ▸ hdecided), any_append, any_append,
        J.any_spread, J.any_spread, any_cons, any_cons]
      simp only [or_eq_true]
      exact ⟨Or.imp_right hrest.1, Or.imp_right hrest.2⟩

omit J in
theorem test_flattened {op : Nary} (hop : ∀ {inner}, Test (nary op inner) → ∀ t ∈ inner, Test t)
    (h : ∀ t ∈ terms, Test t) : ∀ t ∈ flattened op terms, Test t := by
  intro t ht
  obtain ⟨e, he, -, ht⟩ := mem_flattened ht
  rcases spread_cases op e with ⟨inner, rfl, hspread⟩ | ⟨_, hspread⟩ <;> rw [hspread] at ht
  · exact hop (h _ he) t ht
  · exact mem_singleton.1 ht ▸ h e he

/-- Where terms clash there is one that another one is the negation of. -/
theorem exists_negation (h : ∀ t ∈ terms, Test t) (hclash : clashes terms) :
    ∃ t ∈ terms, ∃ u ∈ terms, ∀ b, holds b u = !holds (!b) t := by
  obtain ⟨t, ht, hmem⟩ := any_eq_true.1 hclash
  obtain ⟨u, hu, heq⟩ := contains_iff_exists_mem_beq.1 hmem
  refine ⟨t, ht, u, hu, fun b => ?_⟩
  unfold negated at heq
  split at heq
  · rw [← J.congr (J.test_not.1 (h _ ht)) heq, J.holds_not, Bool.not_not, Bool.not_not]
  · rw [← J.congr (J.test_not.2 (h t ht)) heq, J.holds_not]

/-- Multiplying out a conjunction of disjunctions does not change it. -/
theorem any_multiplyOut (terms : List Expr) (chosen : List (List Expr)) :
    ((multiplyOut terms chosen).any fun choice => choice.all (holds b)) =
      ((chosen.any fun choice => choice.all (holds b)) && terms.all (holds b)) := by
  fun_induction multiplyOut terms chosen with
  | case1 chosen => rw [all_nil, Bool.and_true]
  -- each choice so far goes on with each alternative
  | case2 alts rest chosen ih =>
    have hpick : ((chosen.flatMap fun choice => alts.map fun alt => choice ++ [alt]).any
        fun choice => choice.all (holds b)) =
        ((chosen.any fun choice => choice.all (holds b)) && alts.any (holds b)) := by
      rw [Bool.eq_iff_iff, and_eq_true]
      simp only [any_eq_true, mem_flatMap, mem_map]
      constructor
      · rintro ⟨_, ⟨choice, hchoice, alt, halt, rfl⟩, hall⟩
        rw [all_append, and_eq_true, all_cons, all_nil, Bool.and_true] at hall
        exact ⟨⟨choice, hchoice, hall.1⟩, alt, halt, hall.2⟩
      · rintro ⟨⟨choice, hchoice, hall⟩, alt, halt, htrue⟩
        refine ⟨choice ++ [alt], ⟨choice, hchoice, alt, halt, rfl⟩, ?_⟩
        rw [all_append, hall, all_cons, htrue, all_nil]
        rfl
    rw [ih, hpick, all_cons, J.holds_or, Bool.and_assoc]
  -- a term without alternatives is added to each choice
  | case3 e rest chosen hor ih =>
    have hpick : ((chosen.map (· ++ [e])).any fun choice => choice.all (holds b)) =
        ((chosen.any fun choice => choice.all (holds b)) && holds b e) := by
      rw [any_map, Bool.eq_iff_iff, and_eq_true]
      simp only [any_eq_true, Function.comp, all_append, all_cons, all_nil,
        Bool.and_true, and_eq_true]
      constructor
      · rintro ⟨choice, hchoice, hall, he⟩
        exact ⟨⟨choice, hchoice, hall⟩, he⟩
      · rintro ⟨⟨choice, hchoice, hall⟩, he⟩
        exact ⟨choice, hchoice, hall, he⟩
    rw [ih, hpick, all_cons, Bool.and_assoc]

section

variable (h : ∀ t ∈ terms, Test t)
include h

theorem test_multiplyOut {choice : List Expr}
    (hchoice : choice ∈ multiplyOut terms [[]]) : ∀ t ∈ choice, Test t := by
  obtain ⟨start, hstart, picks, rfl, hpicks⟩ := picks_of_mem_multiplyOut hchoice
  rw [mem_singleton.1 hstart, nil_append]
  intro p hp
  rcases exists_left_of_forall₂ hpicks p hp with ⟨t, ht, ⟨alts, rfl, halt⟩ | ⟨-, rfl⟩⟩
  · exact J.test_or.1 (h _ ht) p halt
  · exact h p ht

theorem reduceAnd : Narrowed Test holds (and terms) (reduceAnd terms) := by
  have htest := test_flattened J.test_and.1 h
  rw [Expr.reduceAnd, conjuncts?_eq]
  by_cases hrefuted : terms.any isRefuted
  · rw [if_pos hrefuted]
    refine ⟨J.test_no, J.narrows_no ?_⟩
    obtain ⟨t, ht, hno⟩ := any_eq_true.1 hrefuted
    have hfalse : holds false t = false := by
      unfold isRefuted at hno
      split at hno
      · exact J.holds_no false
      · exact J.holds_null
      · cases hno
    rw [J.holds_and]
    exact all_eq_false.2 ⟨t, ht, not_eq_true _ ▸ hfalse⟩
  · rw [not_eq_true] at hrefuted
    rw [hrefuted, if_neg Bool.false_ne_true]
    dsimp only
    -- what is kept is as true as the terms, and made of tests
    have hall : ∀ b, ((flattened .and terms).foldl pushNew []).all (holds b) =
        holds b (and terms) := by
      intro b
      rw [J.all_foldl_pushNew htest, all_nil, Bool.true_and, J.all_flattened hrefuted, J.holds_and]
    have hkept : ∀ t ∈ (flattened .and terms).foldl pushNew [], Test t := fun t ht =>
      htest t ((mem_foldl_pushNew ht).resolve_left not_mem_nil)
    generalize (flattened .and terms).foldl pushNew [] = kept at hall hkept
    split
    -- a term and its negation are never certain together
    next hclash =>
      obtain ⟨t, ht, u, hu, hnegation⟩ := J.exists_negation hkept hclash
      refine ⟨J.test_no, J.narrows_no (not_eq_true _ ▸ fun hlower => ?_)⟩
      rw [← hall, all_eq_true] at hlower
      have hcertain := hlower u hu
      rw [hnegation, Bool.not_false, J.possible (hkept t ht) (hlower t ht)] at hcertain
      cases hcertain
    · split
      · exact ⟨J.test_yes, .of_eq fun b => by rw [← hall, all_nil, J.holds_yes]⟩
      · refine ⟨hkept _ mem_cons_self, .of_eq fun b => ?_⟩
        rw [← hall, all_cons, all_nil, Bool.and_true]
      · split
        · -- the conjunction is multiplied out
          refine ⟨J.test_or.2 (fun t ht => ?_), .of_eq fun b => ?_⟩
          · obtain ⟨choice, hchoice, rfl⟩ := mem_map.1 ht
            exact J.test_and.2 (J.test_multiplyOut hkept hchoice)
          · have hproduct := @any_multiplyOut _ _ J b kept [[]]
            rw [any_cons, any_nil, all_nil, Bool.or_false, Bool.true_and, hall] at hproduct
            rw [← hproduct, J.holds_or, any_map]
            exact congrArg _ (funext fun choice => (J.holds_and b choice).symm)
        · exact ⟨J.test_and.2 hkept, .of_eq fun b => by rw [← hall, J.holds_and]⟩

theorem reduceOr : Narrowed Test holds (or terms) (.done (reduceOr terms)) := by
  have htest := test_flattened J.test_or.1 h
  rw [Expr.reduceOr, disjuncts?_eq]
  by_cases haffirmed : terms.any isAffirmed
  · rw [if_pos haffirmed]
    refine ⟨J.test_yes, J.narrows_yes ?_⟩
    obtain ⟨t, ht, hyes⟩ := any_eq_true.1 haffirmed
    have htrue : holds true t := by
      unfold isAffirmed at hyes
      split at hyes
      · exact J.holds_yes true
      · cases hyes
    rw [J.holds_or]
    exact any_eq_true.2 ⟨t, ht, htrue⟩
  · rw [not_eq_true] at haffirmed
    rw [haffirmed, if_neg Bool.false_ne_true]
    dsimp only
    -- not an equation: a null that is dropped may have been open
    have hany : Narrows holds (or terms) (or ((flattened .or terms).foldl pushNew [])) := by
      have hflattened := J.any_flattened haffirmed
      constructor
      · rw [J.holds_or, J.holds_or, J.any_foldl_pushNew htest, any_nil, Bool.false_or]
        exact hflattened.1
      · rw [J.holds_or, J.holds_or, J.any_foldl_pushNew htest, any_nil, Bool.false_or]
        exact hflattened.2
    have hkept : ∀ t ∈ (flattened .or terms).foldl pushNew [], Test t := fun t ht =>
      htest t ((mem_foldl_pushNew ht).resolve_left not_mem_nil)
    generalize (flattened .or terms).foldl pushNew [] = kept at hany hkept
    split
    -- of a term and its negation, one is possible
    next hclash =>
      obtain ⟨t, ht, u, hu, hnegation⟩ := J.exists_negation hkept hclash
      refine ⟨J.test_yes, hany.trans (J.narrows_yes ?_)⟩
      rw [J.holds_or, any_eq_true]
      by_cases hpossible : holds true t
      · exact ⟨t, ht, hpossible⟩
      · refine ⟨u, hu, ?_⟩
        rw [hnegation, Bool.not_true, not_eq_true', ← not_eq_true]
        exact fun hcertain => hpossible (J.possible (hkept t ht) hcertain)
    · split
      · exact ⟨J.test_no, hany.trans (J.narrows_no (by rw [J.holds_or, any_nil]))⟩
      · refine ⟨hkept _ mem_cons_self, hany.trans (.of_eq fun b => ?_)⟩
        rw [J.holds_or, any_cons, any_nil, Bool.or_false]
      · exact ⟨J.test_or.2 hkept, hany⟩

end

end

section

variable {clauses : List (Expr × Expr)} {other : Expr}

variable {cond x y : Expr}

theorem narrows_when_yes (x y : Expr) : Narrows holds (when yes x y) x := .of_eq fun b => by
    rw [J.holds_when, J.holds_yes, J.holds_yes, Bool.true_and, Bool.not_true, Bool.false_and,
      Bool.or_false]

theorem narrows_when_no (x y : Expr) : Narrows holds (when no x y) y := .of_eq fun b => by
    rw [J.holds_when, J.holds_no, J.holds_no, Bool.false_and, Bool.not_false, Bool.true_and,
      Bool.false_or]

/-- A condition that is null may be open, and is then taken not to hold. -/
theorem narrows_when_null (x y : Expr) : Narrows holds (when null x y) y := by
  constructor
  · rw [J.holds_when, J.holds_null, Bool.false_and, Bool.false_or, and_eq_true]
    exact And.right
  · intro hvalue
    rw [J.holds_when, Bool.not_true, J.holds_null, hvalue, Bool.not_false, Bool.and_true,
      Bool.or_true]

theorem narrows_when_same (hc : Test cond) (h : ∀ b, holds b x = holds b y) :
    Narrows holds (when cond x y) x := by
  constructor
  · rw [J.holds_when, ← h]
    simp only [or_eq_true, and_eq_true]
    rintro (⟨-, hvalue⟩ | ⟨-, hvalue⟩) <;> exact hvalue
  · intro hvalue
    rw [J.holds_when, ← h, hvalue, Bool.and_true, Bool.and_true, or_eq_true]
    -- one of the branches is possible, and both have the value
    by_cases hpossible : holds true cond
    · exact .inl hpossible
    · right
      rw [not_eq_true', ← not_eq_true]
      exact fun hcertain => hpossible (J.possible hc hcertain)

theorem reduceWhen (hc : Test cond) (hx : Test x) (hy : Test y) :
    Narrowed Test holds (when cond x y) (reduceWhen cond x y) := by
  unfold Expr.reduceWhen
  split
  · exact ⟨hx, J.narrows_when_yes x y⟩
  · exact ⟨hy, J.narrows_when_no x y⟩
  · exact ⟨hy, J.narrows_when_null x y⟩
  · split
    next heq => exact ⟨hx, J.narrows_when_same hc (J.congr hx heq)⟩
    · split
      · refine ⟨?_, .of_eq fun b => ?_⟩
        · simp only [J.test_or, J.test_and, J.test_not, forall_mem_cons]
          exact ⟨⟨hc, hx, forall_mem_nil _⟩, ⟨hc, hy, forall_mem_nil _⟩, forall_mem_nil _⟩
        · simp [J.holds_when, J.holds_or, J.holds_and, J.holds_not]
      · exact ⟨J.test_when.2 ⟨hc, hx, hy⟩, .refl _⟩

theorem narrows_case_nil (other : Expr) : Narrows holds (case [] other) other :=
  .of_eq fun b => J.holds_case_nil b other

theorem narrows_case_cons (cond x : Expr) (rest : List (Expr × Expr)) (other : Expr) :
    Narrows holds (case ((cond, x) :: rest) other) (when cond x (case rest other)) :=
  .of_eq fun b => J.holds_case_cons b cond x rest other

/-- Clauses that are dropped are never reached. -/
theorem narrows_liveClauses (clauses : List (Expr × Expr)) (other : Expr) :
    Narrows holds (case clauses other)
      (case (liveClauses other clauses).1 (liveClauses other clauses).2) := by
  fun_induction liveClauses other clauses with
  | case1 => exact .refl _
  | case2 _ _ ih => exact ((J.narrows_case_cons _ _ _ _).trans (J.narrows_when_no _ _)).trans ih
  | case3 _ _ ih => exact ((J.narrows_case_cons _ _ _ _).trans (J.narrows_when_null _ _)).trans ih
  | case4 x rest =>
    refine ((J.narrows_case_cons _ _ _ _).trans (J.narrows_when_yes _ _)).trans ?_
    exact .of_eq fun b => (J.holds_case_nil b x).symm
  -- a clause that is kept stands before what is left of the rest
  | case5 cond x rest _ _ _ live other' heq ih =>
    rw [heq] at ih
    refine (J.narrows_case_cons _ _ _ _).trans ?_
    refine ((Narrows.refl cond).when J.toConnects (.refl x) ih).trans ?_
    exact .of_eq fun b => (J.holds_case_cons b cond x live other').symm

theorem narrows_case_same
    (hc : ∀ c ∈ clauses, Test c.1) (h : ∀ c ∈ clauses, ∀ b, holds b c.2 = holds b other) :
    Narrows holds (case clauses other) other := by
  induction clauses with
  | nil => exact J.narrows_case_nil other
  | cons c rest ih =>
    rw [forall_mem_cons] at hc h
    have hwhen : Narrows holds (when c.1 c.2 (case rest other)) (when c.1 other other) :=
      (Narrows.refl c.1).when J.toConnects (.of_eq h.1) (ih hc.2 h.2)
    exact (J.narrows_case_cons c.1 c.2 rest other).trans
      (hwhen.trans (J.narrows_when_same hc.1 fun b => rfl))

theorem reduceCase (h : ∀ c ∈ clauses, Test c.1 ∧ Test c.2) (ho : Test other) :
    Narrowed Test holds (case clauses other) (reduceCase clauses other) := by
  have hlive := J.narrows_liveClauses clauses other
  have htest := forall_liveClauses h ho
  unfold Expr.reduceCase
  generalize liveClauses other clauses = live at hlive htest
  obtain ⟨live, other'⟩ := live
  dsimp only at hlive htest ⊢
  split
  -- where all values are equal the conditions do not matter
  next hsame =>
    refine ⟨htest.2,
      hlive.trans (J.narrows_case_same (fun c hc => (htest.1 c hc).1) fun c hc => ?_)⟩
    exact J.congr (htest.1 c hc).2 (all_eq_true.1 hsame c hc)
  · split
    -- a single clause is a choice of two
    next cond x _ =>
      rw [forall_mem_singleton] at htest
      refine ⟨J.test_when.2 ⟨htest.1.1, htest.1.2, htest.2⟩, hlive.trans ?_⟩
      exact (J.narrows_case_cons cond x [] other').trans
        ((Narrows.refl cond).when J.toConnects (.refl x) (J.narrows_case_nil other'))
    · exact ⟨J.test_case.2 htest, hlive⟩

end

section

variable {v : Json}

theorem holds_false_const (h : v.isTruthValue) : holds false (const v) = v.isTruthy := by
  cases v with
  | null => exact J.holds_null
  | bool t => exact J.holds_bool false t
  | _ => cases h

theorem holds_true_const (h : v.isTruthValue) (htruthy : v.isTruthy) : holds true (const v) := by
  cases v with
  | null => cases htruthy
  | bool t => exact (J.holds_bool true t).trans htruthy
  | _ => cases h

variable {read : Path → DataType → Json} {row : Json} {e : Expr}

/-- The truth of the value lies between what certainly and what possibly holds. -/
theorem between (h : Narrows holds e (const v)) (hv : v.isTruthValue) :
    (holds false e → v.isTruthy) ∧ (v.isTruthy → holds true e) :=
  ⟨fun he => J.holds_false_const hv ▸ h.lower he, fun htruthy =>
    h.upper (J.holds_true_const hv htruthy)⟩

theorem narrows_bool {t : Bool} (hlower : holds false e → t)
    (hupper : t → holds true e) : Narrows holds e (const (.bool t)) :=
  ⟨fun he => (J.holds_bool false t).trans (hlower he),
    fun ht => hupper ((J.holds_bool true t).symm.trans ht)⟩

theorem narrows_when_value {cond y : Expr} {c u : Json} (hc : Narrows holds cond (const c))
    (hcond : c.isTruthValue) (hx : Narrows holds x (const u)) (hy : Narrows holds y (const v)) :
    Narrows holds (when cond x y) (const (if c.isTruthy then u else v)) := by
  have hbetween := J.between hc hcond
  by_cases htruthy : c.isTruthy
  · -- the condition is possible, so the second branch is not certain
    rw [if_pos htruthy]
    have hpossible := hbetween.2 htruthy
    constructor
    · rw [J.holds_when, Bool.not_false, hpossible, Bool.not_true, Bool.false_and, Bool.or_false,
        and_eq_true]
      exact fun h => hx.lower h.2
    · intro h
      rw [J.holds_when, hpossible, hx.upper h, Bool.true_and, Bool.true_or]
  · -- the condition is not certain, so the second branch is possible
    rw [if_neg htruthy]
    have hcertain : holds false cond = false := not_eq_true _ ▸ fun h => htruthy (hbetween.1 h)
    constructor
    · rw [J.holds_when, hcertain, Bool.false_and, Bool.false_or, and_eq_true]
      exact fun h => hy.lower h.2
    · intro h
      rw [J.holds_when, Bool.not_true, hcertain, hy.upper h, Bool.not_false, Bool.true_and,
        Bool.or_true]

/-- An operator on truth values may be replaced by its value where its operands may. -/
theorem narrows_value (hlogical : e.isLogical)
    (hkids : ∀ c ∈ e.children, Narrows holds c (const (c.evaluateWith read row)) ∧
      (c.evaluateWith read row).isTruthValue) : Narrows holds e (const (e.evaluateWith read row)) ∧
      (e.evaluateWith read row).isTruthValue := by
  have hbetween := fun c hc => J.between (hkids c hc).1 (hkids c hc).2
  unfold isLogical at hlogical
  split at hlogical
  -- a negation turns the two bounds round
  next x =>
    have hx := hbetween x mem_cons_self
    refine ⟨J.narrows_bool (t := !(x.evaluateWith read row).isTruthy) ?_ ?_, rfl⟩
    · rw [J.holds_not, Bool.not_false, not_eq_true', not_eq_true', ← not_eq_true, ← not_eq_true]
      exact fun h htruthy => h (hx.2 htruthy)
    · rw [J.holds_not, Bool.not_true, not_eq_true', not_eq_true', ← not_eq_true, ← not_eq_true]
      exact fun h hcertain => h (hx.1 hcertain)
  next terms =>
    rw [evaluateWith, evaluateAll_eq_map]
    refine ⟨J.narrows_bool ?_ ?_, rfl⟩
    · rw [J.holds_and, all_map, all_eq_true, all_eq_true]
      exact fun h t ht => (hbetween t ht).1 (h t ht)
    · rw [J.holds_and, all_map, all_eq_true, all_eq_true]
      exact fun h t ht => (hbetween t ht).2 (h t ht)
  next terms =>
    rw [evaluateWith, evaluateAll_eq_map]
    refine ⟨J.narrows_bool ?_ ?_, rfl⟩
    · rw [J.holds_or, any_map, any_eq_true, any_eq_true]
      rintro ⟨t, ht, h⟩
      exact ⟨t, ht, (hbetween t ht).1 h⟩
    · rw [J.holds_or, any_map, any_eq_true, any_eq_true]
      rintro ⟨t, ht, h⟩
      exact ⟨t, ht, (hbetween t ht).2 h⟩
  · simp only [children, forall_mem_cons] at hkids
    rw [evaluateWith]
    refine ⟨J.narrows_when_value hkids.1.1 hkids.1.2 hkids.2.1.1 hkids.2.2.1.1, ?_⟩
    split
    · exact hkids.2.1.2
    · exact hkids.2.2.1.2
  -- by induction on the clauses, each a choice between it and the rest
  next clauses other =>
    rw [forall_mem_children, Each] at hkids
    clear hbetween
    induction clauses with
    | nil =>
      rw [evaluateWith]
      exact ⟨(J.narrows_case_nil other).trans hkids.2.1, hkids.2.2⟩
    | cons c rest ih =>
      rw [forall_mem_cons] at hkids
      have hrest := ih ⟨hkids.1.2, hkids.2⟩
      rw [evaluateWith] at hrest ⊢
      rw [evaluateCase]
      refine ⟨(J.narrows_case_cons c.1 c.2 rest other).trans
        (J.narrows_when_value hkids.1.1.1.1 hkids.1.1.1.2 hkids.1.1.2.1 hrest.1), ?_⟩
      split
      · exact hkids.1.1.2.2
      · exact hrest.2
  · cases hlogical

end

section

variable {e : Expr}

theorem test_child (hlogical : e.isLogical) (h : Test e) : ∀ c ∈ e.children, Test c := by
  unfold isLogical at hlogical
  split at hlogical
  · exact forall_mem_singleton.2 (J.test_not.1 h)
  · exact J.test_and.1 h
  · exact J.test_or.1 h
  · simp only [children, forall_mem_cons]
    obtain ⟨hc, hx, hy⟩ := J.test_when.1 h
    exact ⟨hc, hx, hy, forall_mem_nil _⟩
  · exact forall_mem_children.2 (J.test_case.1 h)
  · cases hlogical

theorem rewrite (hlogical : e.isLogical) (h : Test e) : Narrowed Test holds e e.rewrite := by
  have hkids := J.test_child hlogical h
  rw [Expr.rewrite]
  split
  -- a test that is a constant is a truth value, so the fold is one
  next hknown =>
    rw [and_eq_true] at hknown
    have hvalue : Narrows holds e (const (e.evaluate .null)) ∧ (e.evaluate .null).isTruthValue := by
      refine J.narrows_value hlogical fun c hc => ?_
      have hconst := all_eq_true.1 hknown.2 c hc
      have htest := hkids c hc
      cases c with
      | const v => exact ⟨.refl _, J.test_const.1 htest⟩
      | date seconds => exact noConfusion (J.type htest)
      | _ => cases hconst
    exact ⟨J.test_const.2 hvalue.2, hvalue.1⟩
  · unfold isLogical at hlogical
    split at hlogical
    · exact J.reduceNot (J.test_not.1 h)
    · exact J.reduceAnd hkids
    · exact J.reduceOr hkids
    · obtain ⟨hc, hx, hy⟩ := J.test_when.1 h
      exact J.reduceWhen hc hx hy
    · obtain ⟨hc, ho⟩ := J.test_case.1 h
      exact J.reduceCase hc ho
    · cases hlogical

theorem mapChildren {f : Expr → Expr} (hlogical : e.isLogical) (h : Test e)
    (hf : ∀ c ∈ e.children, Test c → Test (f c) ∧ Narrows holds c (f c)) :
    Test (e.mapChildren f) ∧ Narrows holds e (e.mapChildren f) ∧
      (e.mapChildren f).isLogical := by
  have hkids : ∀ c ∈ e.children, Test (f c) ∧ Narrows holds c (f c) :=
    fun c hc => hf c hc (J.test_child hlogical h c hc)
  have hterms : ∀ {terms : List Expr}, (∀ t ∈ terms, Test (f t) ∧ Narrows holds t (f t)) →
      (∀ t ∈ terms.map f, Test t) ∧ Forall₂ (Narrows holds) terms (terms.map f) := by
    intro terms hall
    refine ⟨forall_mem_map.2 fun t ht => (hall t ht).1, ?_⟩
    rw [forall₂_map_right_iff, forall₂_same]
    exact fun t ht => (hall t ht).2
  unfold isLogical at hlogical
  split at hlogical
  · obtain ⟨htest, hnarrows⟩ := hkids _ mem_cons_self
    exact ⟨J.test_not.2 htest, hnarrows.not J.toConnects, rfl⟩
  · exact ⟨J.test_and.2 (hterms hkids).1, .all J.toConnects (hterms hkids).2, rfl⟩
  · exact ⟨J.test_or.2 (hterms hkids).1, .any J.toConnects (hterms hkids).2, rfl⟩
  · simp only [children, forall_mem_cons] at hkids
    exact ⟨J.test_when.2 ⟨hkids.1.1, hkids.2.1.1, hkids.2.2.1.1⟩,
      hkids.1.2.when J.toConnects hkids.2.1.2 hkids.2.2.1.2, rfl⟩
  · rw [forall_mem_children, Each] at hkids
    refine ⟨J.test_case.2 ⟨forall_mem_map.2 fun c hc =>
      ⟨(hkids.1 c hc).1.1, (hkids.1 c hc).2.1⟩, hkids.2.1⟩, .case J.toConnects ?_ hkids.2.2, rfl⟩
    rw [forall₂_map_right_iff, forall₂_same]
    exact fun c hc => ⟨(hkids.1 c hc).1.2, (hkids.1 c hc).2.2⟩
  · cases hlogical

end

end Judges

/-- Truth values and atoms under the operators on truth values. -/
inductive Formula (A : Expr → Prop) : Expr → Prop
  | const {v : Json} (truth : v.isTruthValue) : Formula A (const v)
  | atom {e : Expr} (h : A e) : Formula A e
  | logical {e : Expr} (hlogical : e.isLogical) (h : ∀ c ∈ e.children, Formula A c) :
      Formula A e

/-- What the rules for operators on truth values ask of atoms and of a judgement of them. -/
structure Judgeable (A : Expr → Prop) (atom : Bool → Expr → Bool) : Prop where
  plain : ∀ {e}, A e → e.isLogical = false ∧ e.isConstant = false
  holds_bool : ∀ b t, atom b (const (.bool t)) = t
  holds_null : atom false null = false
  possible : ∀ {e}, A e → atom false e → atom true e
  congr : ∀ {x y}, A x → Equal x y → ∀ b, judge atom b x = judge atom b y
  type : ∀ {x}, A x → x.dataType.isTruth
  turn : ∀ {op x y}, A (binary (.basicCompare op) x y) → A (binary (.basicCompare op.negate) x y) ∧
    ∀ b, atom b (binary (.basicCompare op.negate) x y) = !atom (!b) (binary (.basicCompare op) x y)

namespace Judgeable

variable {A : Expr → Prop} {atom : Bool → Expr → Bool} (hA : Judgeable A atom)

include hA

variable {e : Expr}

theorem children (hlogical : e.isLogical) (h : Formula A e) : ∀ c ∈ e.children, Formula A c := by
  cases h with
  | const => cases hlogical
  | atom h =>
    rw [(hA.plain h).1] at hlogical
    cases hlogical
  | logical _ h => exact h

theorem formula_iff (hlogical : e.isLogical) : Formula A e ↔ ∀ c ∈ e.children, Formula A c :=
  ⟨hA.children hlogical, .logical hlogical⟩

theorem isTruth (h : Formula A e) : e.dataType.isTruth := by
  induction h with
  | @const v truth =>
    cases v with
    | null | bool => rfl
    | _ => cases truth
  | atom h => exact hA.type h
  | logical hlogical _ ih => exact isTruth_dataType hlogical ih

theorem judges : Judges (Formula A) (judge atom) where
  toConnects := connects_judge atom
  holds_bool b t := (judge_of_isLogical rfl b).trans (hA.holds_bool b t)
  holds_null := (judge_of_isLogical rfl false).trans hA.holds_null
  possible h := by
    induction h with
    | @const v truth =>
      rw [judge_of_isLogical rfl, judge_of_isLogical rfl]
      cases v with
      | null =>
        rw [hA.holds_null]
        exact fun h => noConfusion h
      | bool t => rw [hA.holds_bool, hA.holds_bool]; exact id
      | _ => cases truth
    | atom h =>
      rw [judge_of_isLogical (hA.plain h).1, judge_of_isLogical (hA.plain h).1]
      exact hA.possible h
    | logical hlogical _ ih => exact (connects_judge atom).possible hlogical ih
  congr {x y} h := by
    induction h generalizing y with
    | const truth =>
      intro heq b
      obtain ⟨w, rfl, hvw⟩ := heq.const
      rw [Json.eq_of_isTruthValue truth hvw]
    | atom h => exact hA.congr h
    | logical hlogical _ ih =>
      exact (connects_judge atom).congr hlogical fun c hc y hy => ih c hc hy
  type h := not_countsWhenPresent_of_isTruth (hA.isTruth h)
  -- a comparison is no operator on truth values, so it is an atom
  turn h := by
    cases h with
    | atom h =>
      obtain ⟨hturned, hatom⟩ := hA.turn h
      refine ⟨.atom hturned, fun b => ?_⟩
      rw [judge_of_isLogical rfl, judge_of_isLogical rfl, hatom]
    | logical hlogical => cases hlogical
  test_const := by
    intro v
    refine ⟨fun h => ?_, .const⟩
    cases h with
    | const truth => exact truth
    | atom h => exact noConfusion (hA.plain h).2
    | logical hlogical => cases hlogical
  test_not := (hA.formula_iff rfl).trans forall_mem_singleton
  test_and := hA.formula_iff rfl
  test_or := hA.formula_iff rfl
  test_when := by
    intro cond x y
    rw [hA.formula_iff rfl]
    simp only [Expr.children, forall_mem_cons]
    exact ⟨fun h => ⟨h.1, h.2.1, h.2.2.1⟩, fun h => ⟨h.1, h.2.1, h.2.2, forall_mem_nil _⟩⟩
  test_case := (hA.formula_iff rfl).trans forall_mem_children

/-- Where atoms may be replaced by their values, formulas may. -/
theorem narrows_evaluate {row : Json}
    (hatom : ∀ {e}, A e → Narrows (judge atom) e (const (e.evaluate row)) ∧
      (e.evaluate row).isTruthValue) (h : Formula A e) :
    Narrows (judge atom) e (const (e.evaluate row)) ∧ (e.evaluate row).isTruthValue := by
  induction h with
  | const truth => exact ⟨.refl _, truth⟩
  | atom h => exact hatom h
  | logical hlogical _ ih => exact hA.judges.narrows_value hlogical ih

end Judgeable

end Expr

end Snowbank
