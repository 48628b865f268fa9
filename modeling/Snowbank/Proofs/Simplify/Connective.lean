import Snowbank.Proofs.Simplify.Pass

/-!
# Conjunctions, Disjunctions and Negations

The rules for the three connectives feed each other: a negation of a
conjunction is a disjunction of negations, a conjunction of disjunctions is
multiplied out, and a negation of a value becomes a test for a missing value,
which is made of connectives again. None of that is smaller than what it came
from in any obvious way.

What makes it end is that operands are simple before the rules see them. The
lemmas here say what a connective of simple operands becomes, with what has
to be simplified again left as a hypothesis, and for any class of normal forms
that is closed under the rules, since more becomes known of the class later.

## Main definitions

* `Forms`: A class of normal forms that has the connectives of its members.

## Theorems

* `Forms.settles_or`: A disjunction settles when its terms do.
* `Forms.resolves_not`: A negation settles if what it is moved into does.
-/

namespace Snowbank.Expr

open List Bool Normal

variable {s : Schema} {terms : List Expr}
variable {terms : List Expr}

/-- The node is a conjunction, a disjunction or a negation. -/
def isConnective : Expr → Bool
  | and _ | or _ | not _ => true
  | _ => false

/-- A class of normal forms. It holds the constants, a connective whose operands it holds, and any
    other normal form whose test for a missing value settles in it. -/
structure Forms (s : Schema) (n : Nat) (P : Expr → Prop) : Prop where
  normal : ∀ {r}, P r → Normal s n r
  const : ∀ {v : Json}, v.Definite → P (const v)
  accepts : ∀ {r}, Normal s n r → (r.isConnective → ∀ c ∈ r.children, P c) →
    Settles s P (missingPlain r) → P r
  term : ∀ {r}, P r → r.isConnective → ∀ c ∈ r.children, P c

theorem settles_const {P : Expr → Prop} {v : Json} (h : P (const v)) : Settles s P (const v) :=
  settles_of_operands rfl (passOperands?_eq_self (forall_mem_nil _)) (resolves_done h)

theorem all_isConstant_eq_false (h : ∃ t ∈ terms, t.isConstant = false) :
    terms.all isConstant = false := by
  obtain ⟨t, ht, hopen⟩ := h
  rw [all_eq_false]
  exact ⟨t, ht, by rw [hopen]; exact false_ne_true⟩

theorem exists_open (h : terms.all isConstant = false) : ∃ t ∈ terms, t.isConstant = false := by
  rw [all_eq_false] at h
  obtain ⟨t, ht, hopen⟩ := h
  exact ⟨t, ht, not_eq_true _ ▸ hopen⟩

theorem Shape.joined {op : Nary} (hop : op = .and ∨ op = .or) {inner : List Expr}
    (h : Shape s (nary op inner)) : Joined op inner := by
  rcases hop with rfl | rfl
  · exact h.1
  · exact h

namespace Forms

variable {s : Schema} {n : Nat} {P : Expr → Prop} (hP : Forms s n P)

section

variable {op : Nary} {terms : List Expr}

include hP in
/-- The terms that are kept are in the class, and as they should be. -/
theorem kept (hop : op = .and ∨ op = .or) (h : ∀ t ∈ terms, P t) {t : Expr}
    (ht : t ∈ (flattened op terms).foldl pushNew []) :
    P t ∧ t.isDecided = false ∧ t.isNary op = false := by
  rcases mem_foldl_pushNew ht with ht | ht
  · cases ht
  · obtain ⟨e, he, hopen, ht⟩ := mem_flattened ht
    rcases spread_cases op e with ⟨inner, rfl, hspread⟩ | ⟨hnary, hspread⟩ <;> rw [hspread] at ht
    · have hconn : (nary op inner).isConnective := by rcases hop with rfl | rfl <;> rfl
      exact ⟨hP.term (h _ he) hconn t ht, (Shape.joined hop (hP.normal (h _ he)).shape).flat t ht⟩
    · rw [mem_singleton] at ht
      subst ht
      exact ⟨h t he, hopen, hnary⟩

include hP in
theorem open_kept (hop : op = .and ∨ op = .or) (h : ∀ t ∈ terms, P t)
    (hopen : terms.all isConstant = false) :
    ((flattened op terms).foldl pushNew []).all isConstant = false := by
  refine all_isConstant_eq_false (open_foldl_pushNew ?_)
  rw [nil_append]
  refine open_flattened (exists_open hopen) (fun inner hinner => ?_)
  have hnormal := hP.normal (h _ hinner)
  refine exists_open (hnormal.isOpen rfl ?_)
  rcases hop with rfl | rfl <;> rfl

include hP in
theorem joined_kept (hop : op = .and ∨ op = .or) (h : ∀ t ∈ terms, P t)
    (htwo : 2 ≤ ((flattened op terms).foldl pushNew []).length)
    (hclash : clashes ((flattened op terms).foldl pushNew []) = false) :
    Joined op ((flattened op terms).foldl pushNew []) where
  two := htwo
  distinct := distinct_foldl_pushNew Pairwise.nil
  flat := fun _ ht => (hP.kept hop h ht).2
  consistent := hclash

include hP in
theorem nary_mem (hop : op = .and ∨ op = .or) (h : ∀ t ∈ terms, P t)
    (hshape : Shape s (nary op terms)) (hopen : terms.all isConstant = false) :
    P (nary op terms) := by
  refine hP.accepts (node (fun h => Bool.noConfusion h) hshape (fun _ => hopen)
    (fun c hc => hP.normal (h c hc))) (fun _ => h) ?_
  have hmissing : missingPlain (nary op terms) = no := by rcases hop with rfl | rfl <;> rfl
  rw [hmissing]
  exact settles_const (hP.const rfl)

end

include hP in
theorem definite_nary (op : Nary) (h : ∀ t ∈ terms, P t) : (nary op terms).Definite :=
  (definite_iff _).2 ⟨trivial, fun c hc => (hP.normal (h c hc)).definite⟩

include hP in
theorem resolves_or (h : ∀ t ∈ terms, P t) : Resolves s P (or terms).rewrite := by
  refine resolves_rewrite (hP.definite_nary .or h) rfl hP.const (fun hopen => ?_)
  have hor : (Nary.or = .and ∨ Nary.or = .or) := .inr rfl
  rw [reduce, reduceNary, reduceOr, disjuncts?_eq]
  refine resolves_done ?_
  split
  · exact hP.const rfl
  next kept hkept =>
    split at hkept
    · cases hkept
    · rw [Option.some.injEq] at hkept
      subst hkept
      split
      · exact hP.const rfl
      next hclash =>
        rw [not_eq_true] at hclash
        split
        · exact hP.const rfl
        next e heq => exact (hP.kept hor h (heq ▸ mem_singleton.2 rfl)).1
        next hne hne' =>
          refine hP.nary_mem hor (fun t ht => (hP.kept hor h ht).1) ?_ (hP.open_kept hor h hopen)
          exact hP.joined_kept hor h (two_le_length hne hne') hclash

include hP in
theorem settles_or (h : ∀ t ∈ terms, Settles s P t) : Settles s P (or terms) :=
  settles_of_children rfl h fun _ hf _ => hP.resolves_or (forall_mem_map.2 hf)

include hP in
/-- What a conjunction keeps weighs no more than its terms. If that is to be
    multiplied out, the product has to settle. -/
theorem resolves_and (h : ∀ t ∈ terms, P t)
    (hproduct : ∀ kept, (∀ t ∈ kept, P t) → weight kept ≤ weight terms →
      multiplies kept → Settles s P (or ((multiplyOut kept [[]]).map and))) :
    Resolves s P (and terms).rewrite := by
  refine resolves_rewrite (hP.definite_nary .and h) rfl hP.const (fun hopen => ?_)
  have hand : (Nary.and = .and ∨ Nary.and = .or) := .inl rfl
  -- flattening adds no weight, which bounds the product below
  have hweight : weight ((flattened .and terms).foldl pushNew []) ≤ weight terms := by
    have hpush := weight_foldl_pushNew_le [] (flattened .and terms)
    rw [weight_nil, Nat.zero_add] at hpush
    exact Nat.le_trans hpush (weight_flattened_le .and terms)
  rw [reduce, reduceNary, reduceAnd, conjuncts?_eq]
  split
  · exact resolves_done (hP.const rfl)
  next kept hkept =>
    split at hkept
    · cases hkept
    · rw [Option.some.injEq] at hkept
      subst hkept
      split
      · exact resolves_done (hP.const rfl)
      next hclash =>
        rw [not_eq_true] at hclash
        split
        · exact resolves_done (hP.const rfl)
        next e heq => exact resolves_done (hP.kept hand h (heq ▸ mem_singleton.2 rfl)).1
        next hne hne' =>
          split
          next hmul =>
            exact resolves_again (hproduct _ (fun t ht => (hP.kept hand h ht).1) hweight hmul)
          next hmul =>
            rw [not_eq_true] at hmul
            refine resolves_done (hP.nary_mem hand (fun t ht => (hP.kept hand h ht).1) ?_
              (hP.open_kept hand h hopen))
            exact ⟨hP.joined_kept hand h (two_le_length hne hne') hclash, hmul⟩

include hP in
/-- Each choice of one alternative per term is again a list in the class. -/
theorem picks_mem {picks : List Expr} (h : ∀ t ∈ terms, P t)
    (hpicks : Forall₂ Picks terms picks) : ∀ t ∈ picks, P t := by
  induction hpicks with
  | nil => exact forall_mem_nil _
  | cons hpick _ ih =>
    rw [forall_mem_cons] at h ⊢
    refine ⟨?_, ih h.2⟩
    rcases hpick with ⟨alts, rfl, halt⟩ | ⟨-, rfl⟩
    · exact hP.term h.1 rfl _ halt
    · exact h.1

include hP in
theorem resolves_not {x : Expr} (hx : P x)
    (hand : ∀ terms, x = and terms → Settles s P (or (terms.map not)))
    (hor : ∀ terms, x = or terms → Settles s P (and (terms.map not)))
    (hmissing : x.isConnective = false → Settles s P (missingPlain x)) :
    Resolves s P (not x).rewrite := by
  have hnormal := hP.normal hx
  have hdef : (not x).Definite :=
    (definite_iff _).2 ⟨trivial, forall_mem_singleton.2 hnormal.definite⟩
  refine resolves_rewrite hdef rfl hP.const (fun hopen => ?_)
  have hconst : x.isConstant = false := by simpa [children] using hopen
  rw [reduce, reduceUnary]
  -- the negation goes into the operand, or it stays in front
  by_cases habsorb : x.absorbsNot
  · unfold absorbsNot at habsorb
    split at habsorb
    · exact resolves_done (hP.term hx rfl _ mem_cons_self)
    · exact resolves_again (hand _ rfl)
    · exact resolves_again (hor _ rfl)
    next op a b =>
      refine resolves_done (hP.accepts ?_ (fun h => Bool.noConfusion h)
        (settles_const (hP.const rfl)))
      exact node (fun h => Bool.noConfusion h) trivial (fun _ => hnormal.isOpen rfl rfl)
        (fun c hc => hnormal.child hc)
    · cases habsorb
  · rw [not_eq_true] at habsorb
    have hconn : x.isConnective = false := by
      unfold isConnective
      split
      · cases habsorb
      · cases habsorb
      · cases habsorb
      · rfl
    rw [reduceNot_eq hconst habsorb]
    split
    · exact resolves_again (hmissing hconn)
    next hcounts =>
      rw [not_eq_true] at hcounts
      refine resolves_done (hP.accepts ?_ (fun _ => forall_mem_singleton.2 hx)
        (settles_const (hP.const rfl)))
      exact node (fun h => Bool.noConfusion h) ⟨habsorb, hcounts⟩ (fun _ => hopen)
        (forall_mem_singleton.2 hnormal)

end Forms

end Snowbank.Expr
