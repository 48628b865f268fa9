import Snowbank.Proofs.Expr.Equal

/-!
# What Tests Leave Open

A judgement of tests says whether a test certainly holds and whether it possibly
holds, and the operators on truth values go through to their operands: a
negation certainly holds when its operand does not possibly hold. Replacing a
test is sound when what certainly held still does and nothing becomes possible
that was not.

What is open is left to whoever judges. Simplifying a filter turns comparisons
round that have no value, so these are open there. Simplifying a projected value
makes truth values of nothing, so every test without a value is.

## Main definitions

* `Connects`: The judgement goes through the operators on truth values.
* `Narrows`: What a test is replaced by leaves no more open.
* `judge`: The judgement that comes from one of all other nodes.

## Theorems

* `judge_of_isLogical`: Nodes that are no operators are judged directly.
* `Connects.congr`: Equal nodes are judged alike, if equal operands are.
-/

namespace Snowbank

open List Bool

/-- The value is a truth value, or there is none. -/
def Json.isTruthValue : Json → Bool
  | .null | .bool _ => true
  | _ => false

theorem Json.eq_of_isTruthValue {v w : Json} (h : v.isTruthValue) (hvw : (v == w)) : w = v := by
  change Json.beq v w = true at hvw
  cases v with
  | null | bool => cases w <;> simp_all [Json.beq]
  | _ => cases h

namespace Expr

/-- The judgement goes through the operators on truth values. With `false` it says what certainly
    holds and with `true` what possibly holds, and a negation turns that round. -/
structure Connects (holds : Bool → Expr → Bool) : Prop where
  holds_not : ∀ b x, holds b (not x) = !holds (!b) x
  holds_and : ∀ b terms, holds b (and terms) = terms.all (holds b)
  holds_or : ∀ b terms, holds b (or terms) = terms.any (holds b)
  holds_when : ∀ b cond x y, holds b (when cond x y) =
    ((holds b cond && holds b x) || (!holds (!b) cond && holds b y))
  holds_case_nil : ∀ b other, holds b (case [] other) = holds b other
  /-- A choice of clauses is a choice between the first value and the rest. -/
  holds_case_cons : ∀ b cond x rest other,
    holds b (case ((cond, x) :: rest) other) = holds b (when cond x (case rest other))

/-- `r` leaves no more open than `e`: what certainly held still does, and
    nothing is possible that was not. -/
structure Narrows (holds : Bool → Expr → Bool) (e r : Expr) : Prop where
  lower : holds false e → holds false r
  upper : holds true r → holds true e

variable {holds : Bool → Expr → Bool} {e r : Expr}

namespace Narrows

variable {terms simple : List Expr}

theorem of_eq (h : ∀ b, holds b e = holds b r) : Narrows holds e r :=
  ⟨fun he => h false ▸ he, fun hr => (h true).trans hr⟩

theorem refl (e : Expr) : Narrows holds e e := of_eq fun _ => rfl

theorem trans {m : Expr} (h : Narrows holds e m) (h' : Narrows holds m r) : Narrows holds e r :=
  ⟨fun he => h'.lower (h.lower he), fun hr => h.upper (h'.upper hr)⟩

variable (hconnects : Connects holds)

include hconnects

theorem not (h : Narrows holds e r) : Narrows holds (not e) (not r) := by
  constructor
  · rw [hconnects.holds_not, hconnects.holds_not, not_eq_true', not_eq_true',
      ← not_eq_true, ← not_eq_true]
    exact fun he hr => he (h.upper hr)
  · rw [hconnects.holds_not, hconnects.holds_not, not_eq_true', not_eq_true',
      ← not_eq_true, ← not_eq_true]
    exact fun hr he => hr (h.lower he)

theorem all (h : Forall₂ (Narrows holds) terms simple) :
    Narrows holds (and terms) (and simple) := by
  constructor
  · rw [hconnects.holds_and, hconnects.holds_and]
    induction h with
    | nil => exact id
    | cons hx _ ih =>
      rw [all_cons, all_cons, and_eq_true, and_eq_true]
      exact fun hall => ⟨hx.lower hall.1, ih hall.2⟩
  · rw [hconnects.holds_and, hconnects.holds_and]
    induction h with
    | nil => exact id
    | cons hx _ ih =>
      rw [all_cons, all_cons, and_eq_true, and_eq_true]
      exact fun hall => ⟨hx.upper hall.1, ih hall.2⟩

theorem any (h : Forall₂ (Narrows holds) terms simple) : Narrows holds (or terms) (or simple) := by
  constructor
  · rw [hconnects.holds_or, hconnects.holds_or]
    induction h with
    | nil => exact id
    | cons hx _ ih =>
      rw [any_cons, any_cons, or_eq_true, or_eq_true]
      exact fun hany => hany.imp hx.lower ih
  · rw [hconnects.holds_or, hconnects.holds_or]
    induction h with
    | nil => exact id
    | cons hx _ ih =>
      rw [any_cons, any_cons, or_eq_true, or_eq_true]
      exact fun hany => hany.imp hx.upper ih

theorem when {cond cond' x x' y y' : Expr} (hc : Narrows holds cond cond') (hx : Narrows holds x x')
    (hy : Narrows holds y y') : Narrows holds (when cond x y) (when cond' x' y') := by
  -- the condition is needed both ways: to take the first branch, and not to
  constructor
  · simp only [hconnects.holds_when, or_eq_true, and_eq_true, not_eq_true', Bool.not_false]
    rintro (⟨hcond, hvalue⟩ | ⟨hcond, hvalue⟩)
    · exact .inl ⟨hc.lower hcond, hx.lower hvalue⟩
    · refine .inr ⟨?_, hy.lower hvalue⟩
      rw [← not_eq_true] at hcond ⊢
      exact fun h => hcond (hc.upper h)
  · simp only [hconnects.holds_when, or_eq_true, and_eq_true, not_eq_true', Bool.not_true]
    rintro (⟨hcond, hvalue⟩ | ⟨hcond, hvalue⟩)
    · exact .inl ⟨hc.upper hcond, hx.upper hvalue⟩
    · refine .inr ⟨?_, hy.upper hvalue⟩
      rw [← not_eq_true] at hcond ⊢
      exact fun h => hcond (hc.lower h)

theorem case {clauses simple : List (Expr × Expr)} {other other' : Expr}
    (h : Forall₂ (fun c d => Narrows holds c.1 d.1 ∧ Narrows holds c.2 d.2) clauses simple)
    (ho : Narrows holds other other') :
    Narrows holds (case clauses other) (case simple other') := by
  induction h with
  | nil => exact ⟨by simpa [hconnects.holds_case_nil] using ho.lower,
      by simpa [hconnects.holds_case_nil] using ho.upper⟩
  | @cons c d _ _ hcd _ ih =>
    have hwhen := hcd.1.when hconnects hcd.2 ih
    constructor
    · rw [hconnects.holds_case_cons, hconnects.holds_case_cons]
      exact hwhen.lower
    · rw [hconnects.holds_case_cons, hconnects.holds_case_cons]
      exact hwhen.upper

end Narrows

mutual

/-- The judgement of the operators on truth values that `atom` gives of everything else. -/
def judge (atom : Bool → Expr → Bool) (guess : Bool) : Expr → Bool
  | not x => !judge atom (!guess) x
  | and terms => judgeAll atom guess terms
  | or terms => judgeAny atom guess terms
  | when cond x y =>
    (judge atom guess cond && judge atom guess x) ||
      (!judge atom (!guess) cond && judge atom guess y)
  | case clauses other => judgeCase atom guess clauses (judge atom guess other)
  | e => atom guess e

/-- All terms hold. -/
def judgeAll (atom : Bool → Expr → Bool) (guess : Bool) : List Expr → Bool
  | [] => true
  | x :: rest => judge atom guess x && judgeAll atom guess rest

/-- Some term holds. -/
def judgeAny (atom : Bool → Expr → Bool) (guess : Bool) : List Expr → Bool
  | [] => false
  | x :: rest => judge atom guess x || judgeAny atom guess rest

/-- The value of the first clause whose condition holds does, or the other value. -/
def judgeCase (atom : Bool → Expr → Bool) (guess : Bool) : List (Expr × Expr) → Bool → Bool
  | [], other => other
  | (cond, x) :: rest, other =>
    (judge atom guess cond && judge atom guess x) ||
      (!judge atom (!guess) cond && judgeCase atom guess rest other)

end

/-- The node is an operator on truth values. -/
def isLogical : Expr → Bool
  | not _ | and _ | or _ | when _ _ _ | case _ _ => true
  | _ => false

theorem judge_of_isLogical {atom : Bool → Expr → Bool} (h : e.isLogical = false) (b : Bool) :
    judge atom b e = atom b e := by
  rw [judge] <;> (intros; subst_vars; exact Bool.noConfusion h)

theorem connects_judge (atom : Bool → Expr → Bool) : Connects (judge atom) where
  holds_not b x := by rw [judge]
  holds_and b terms := by
    rw [judge]
    induction terms with
    | nil => rfl
    | cons x rest ih => rw [judgeAll, ih, all_cons]
  holds_or b terms := by
    rw [judge]
    induction terms with
    | nil => rfl
    | cons x rest ih => rw [judgeAny, ih, any_cons]
  holds_when b cond x y := by rw [judge]
  holds_case_nil b other := by rw [judge, judgeCase]
  holds_case_cons b cond x rest other := by simp [judge, judgeCase]

theorem Connects.possible (hconnects : Connects holds) (hlogical : e.isLogical)
    (hkids : ∀ c ∈ e.children, holds false c → holds true c) : holds false e → holds true e := by
  have hwhen : ∀ {cond x y : Expr}, (holds false cond → holds true cond) →
      (holds false x → holds true x) → (holds false y → holds true y) →
      holds false (.when cond x y) → holds true (.when cond x y) := by
    intro cond x y hc hx hy
    simp only [hconnects.holds_when, or_eq_true, and_eq_true, not_eq_true',
      Bool.not_true, Bool.not_false]
    rintro (⟨hcond, hvalue⟩ | ⟨hcond, hvalue⟩)
    · exact .inl ⟨hc hcond, hx hvalue⟩
    · refine .inr ⟨?_, hy hvalue⟩
      rw [← not_eq_true] at hcond ⊢
      exact fun h => hcond (hc h)
  unfold isLogical at hlogical
  split at hlogical
  · rw [hconnects.holds_not, hconnects.holds_not, not_eq_true', not_eq_true',
      ← not_eq_true, ← not_eq_true]
    exact fun hx hcertain => hx (hkids _ mem_cons_self hcertain)
  · rw [hconnects.holds_and, hconnects.holds_and, all_eq_true, all_eq_true]
    exact fun hall t ht => hkids t ht (hall t ht)
  · rw [hconnects.holds_or, hconnects.holds_or, any_eq_true, any_eq_true]
    exact fun ⟨t, ht, hsome⟩ => ⟨t, ht, hkids t ht hsome⟩
  · simp only [children, forall_mem_cons] at hkids
    exact hwhen hkids.1 hkids.2.1 hkids.2.2.1
  next clauses other =>
    rw [forall_mem_children, Each] at hkids
    induction clauses with
    | nil =>
      rw [hconnects.holds_case_nil, hconnects.holds_case_nil]
      exact hkids.2
    | cons c rest ih =>
      rw [forall_mem_cons] at hkids
      rw [hconnects.holds_case_cons, hconnects.holds_case_cons]
      exact hwhen hkids.1.1.1 hkids.1.1.2 (ih ⟨hkids.1.2, hkids.2⟩)
  · cases hlogical

section

variable {y : Expr}

theorem all_any_congr {f : Expr → Bool} {terms terms' : List Expr}
    (h : Forall₂ Equal terms terms') (hf : ∀ t ∈ terms, ∀ y, Equal t y → f t = f y) :
    terms.all f = terms'.all f ∧ terms.any f = terms'.any f := by
  induction h with
  | nil => exact ⟨rfl, rfl⟩
  | cons hxy _ ih =>
    rw [forall_mem_cons] at hf
    rw [all_cons, all_cons, any_cons, any_cons, hf.1 _ hxy, (ih hf.2).1, (ih hf.2).2]
    exact ⟨rfl, rfl⟩

theorem Connects.congr (hconnects : Connects holds) (hlogical : e.isLogical)
    (hkids : ∀ c ∈ e.children, ∀ y, Equal c y → ∀ b, holds b c = holds b y) (heq : Equal e y)
    (b : Bool) : holds b e = holds b y := by
  unfold isLogical at hlogical
  split at hlogical
  · obtain ⟨x', rfl, hx⟩ := heq.unary
    rw [hconnects.holds_not, hconnects.holds_not, hkids _ mem_cons_self _ hx]
  · obtain ⟨terms, rfl, hterms⟩ := heq.nary
    rw [hconnects.holds_and, hconnects.holds_and]
    exact (all_any_congr hterms (fun t ht y hy => hkids t ht y hy b)).1
  · obtain ⟨terms, rfl, hterms⟩ := heq.nary
    rw [hconnects.holds_or, hconnects.holds_or]
    exact (all_any_congr hterms (fun t ht y hy => hkids t ht y hy b)).2
  · obtain ⟨c', x', y', rfl, hcc, hxx, hyy⟩ := heq.when
    simp only [children, forall_mem_cons] at hkids
    rw [hconnects.holds_when, hconnects.holds_when, hkids.1 _ hcc, hkids.2.1 _ hxx,
      hkids.2.2.1 _ hyy, hkids.1 _ hcc]
  · obtain ⟨clauses', other', rfl, hclauses, hother⟩ := heq.case
    rw [forall_mem_children, Each] at hkids
    clear heq
    induction hclauses with
    | nil => rw [hconnects.holds_case_nil, hconnects.holds_case_nil, hkids.2 _ hother]
    | cons hcd _ ih =>
      rw [forall_mem_cons] at hkids
      rw [hconnects.holds_case_cons, hconnects.holds_case_cons, hconnects.holds_when,
        hconnects.holds_when, hkids.1.1.1 _ hcd.1 b, hkids.1.1.2 _ hcd.2 b,
        hkids.1.1.1 _ hcd.1 (!b), ih ⟨hkids.1.2, hkids.2⟩]
  · cases hlogical

end

end Expr

end Snowbank
