import Mathlib.Data.List.Forall2
import Snowbank.Proofs.Expr.Tree

/-!
# Lists of Terms

What the rules for conjunctions, disjunctions and choices do with the lists
of their terms, apart from what the terms are.

All of them flatten: the terms of an operand with the same operator take its
place. All of them keep each term once, by putting it at the end of a list
unless an equal one is there. So what matters of the list they arrive at is
that its terms are distinct, that each was there before, that nothing but
constants can vanish altogether, and that it is no larger.

## Main definitions

* `spread`: The terms of an expression with an operator.
* `flattened`: The terms of operands with an operator, but decided ones.
* `Distinct`: No term equals an earlier one.

## Theorems

* `conjuncts?_eq`: A conjunction is refuted, or keeps its terms each once.
* `disjuncts?_eq`: A disjunction is affirmed, or keeps its terms each once.
-/

namespace Snowbank.Expr

open List Bool

variable {op : Nary} {e : Expr}

/-- The expression is true, false or null. -/
def isDecided : Expr → Bool
  | yes | no | null => true
  | _ => false

/-- The node has the given operator. -/
def isNary (op : Nary) : Expr → Bool
  | nary op' _ => op' == op
  | _ => false

/-- The terms of an expression with the given operator; any other expression is a term itself. -/
def spread (op : Nary) : Expr → List Expr
  | nary op' inner => if op' == op then inner else [nary op' inner]
  | e => [e]

/-- No term equals an earlier one. -/
def Distinct (terms : List Expr) : Prop := terms.Pairwise fun x y => (y == x) = false

theorem spread_of_isNary (h : e.isNary op = false) : e.spread op = [e] := by
  cases e with
  | nary op' inner =>
    rw [isNary] at h
    rw [spread, h]
    rfl
  | _ => rfl

/-- An expression is spread into its terms, or stays as it is. -/
theorem spread_cases (op : Nary) (e : Expr) :
    (∃ inner, e = nary op inner ∧ e.spread op = inner) ∨ e.isNary op = false ∧
    e.spread op = [e] := by
  by_cases hop : e.isNary op
  · cases e with
    | nary op' inner =>
      rw [isNary, beq_iff_eq] at hop
      subst hop
      exact .inl ⟨inner, rfl, if_pos (beq_self_eq_true _)⟩
    | _ => cases hop
  · rw [not_eq_true] at hop
    exact .inr ⟨hop, spread_of_isNary hop⟩

theorem isDecided_of_not_isConstant (h : e.isConstant = false) : e.isDecided = false := by
  cases e with
  | const => cases h
  | _ => rfl

theorem isDecided_eq_false (hyes : e ≠ yes) (hno : e ≠ no) (hnull : e ≠ null) :
    e.isDecided = false := by
  unfold isDecided
  split
  · exact absurd rfl hyes
  · exact absurd rfl hno
  · exact absurd rfl hnull
  · rfl

theorem isNary_eq_false (h : ∀ inner, e ≠ nary op inner) : e.isNary op = false := by
  cases e with
  | nary op' inner =>
    rw [isNary, beq_eq_false_iff_ne]
    rintro rfl
    exact h inner rfl
  | _ => rfl

section

variable {seen terms : List Expr}

variable {e t : Expr}

theorem contains_eq_false (h : ∀ t ∈ terms, (e == t) = false) : terms.contains e = false := by
  rw [← not_eq_true, contains_iff_exists_mem_beq]
  rintro ⟨t, ht, heq⟩
  rw [h t ht] at heq
  exact Bool.false_ne_true heq

theorem distinct_pushNew (h : Distinct seen) : Distinct (pushNew seen e) := by
  unfold pushNew
  split
  · exact h
  next hnew =>
    refine pairwise_append.2 ⟨h, pairwise_singleton _ _, fun x hx y hy => ?_⟩
    rw [mem_singleton.1 hy, ← not_eq_true]
    exact fun heq => hnew (contains_iff_exists_mem_beq.2 ⟨x, hx, heq⟩)

theorem mem_pushNew (h : t ∈ pushNew seen e) : t ∈ seen ∨ t = e := by
  unfold pushNew at h
  split at h
  · exact .inl h
  · simpa using h

theorem distinct_foldl_pushNew (h : Distinct seen) : Distinct (terms.foldl pushNew seen) := by
  induction terms generalizing seen with
  | nil => exact h
  | cons e rest ih => exact ih (distinct_pushNew h)

theorem mem_foldl_pushNew (h : t ∈ terms.foldl pushNew seen) : t ∈ seen ∨ t ∈ terms := by
  induction terms generalizing seen with
  | nil => exact .inl h
  | cons e rest ih =>
    rcases ih h with h | h
    · rcases mem_pushNew h with h | rfl
      · exact .inl h
      · exact .inr mem_cons_self
    · exact .inr (.tail _ h)

theorem foldl_pushNew_eq (h : Distinct (seen ++ terms)) :
    terms.foldl pushNew seen = seen ++ terms := by
  induction terms generalizing seen with
  | nil => rw [foldl_nil, append_nil]
  | cons e rest ih =>
    have hnew : pushNew seen e = seen ++ [e] := by
      rw [pushNew, if_neg]
      rw [not_eq_true]
      refine contains_eq_false (fun t ht => ?_)
      exact (pairwise_append.1 h).2.2 t ht e mem_cons_self
    rw [foldl_cons, hnew, ih, append_assoc, singleton_append]
    rwa [append_assoc, singleton_append]

/-- A term that is no constant keeps its place, or leaves it to one that is no constant either. -/
theorem open_foldl_pushNew (h : ∃ t ∈ seen ++ terms, t.isConstant = false) :
    ∃ t ∈ terms.foldl pushNew seen, t.isConstant = false := by
  induction terms generalizing seen with
  | nil => rwa [append_nil] at h
  | cons e rest ih =>
    refine ih ?_
    obtain ⟨t, ht, hopen⟩ := h
    simp only [mem_append, mem_cons] at ht ⊢
    unfold pushNew
    split
    next hmem =>
      rcases ht with ht | rfl | ht
      · exact ⟨t, .inl ht, hopen⟩
      · obtain ⟨y, hy, heq⟩ := contains_iff_exists_mem_beq.1 hmem
        refine ⟨y, .inl hy, ?_⟩
        rw [← not_eq_true] at hopen ⊢
        exact fun hconst => hopen (isConstant_of_beq heq hconst)
      · exact ⟨t, Or.inr ht, hopen⟩
    · simp only [mem_append, mem_singleton]
      rcases ht with ht | rfl | ht
      · exact ⟨t, Or.inl (Or.inl ht), hopen⟩
      · exact ⟨t, Or.inl (Or.inr rfl), hopen⟩
      · exact ⟨t, .inr ht, hopen⟩

end

theorem two_le_length {α : Type} {l : List α} (hempty : l = [] → False)
    (hone : ∀ a, l = [a] → False) : 2 ≤ l.length := by
  rcases l with _ | ⟨a, _ | ⟨b, rest⟩⟩
  · exact absurd rfl hempty
  · exact absurd rfl (hone a)
  · exact Nat.le_add_left _ _

/-- The total size of terms. -/
noncomputable def weight : List Expr → Nat
  | [] => 0
  | e :: terms => sizeOf e + weight terms

theorem weight_nil : weight [] = 0 := rfl

theorem weight_cons (e : Expr) (terms : List Expr) :
    weight (e :: terms) = sizeOf e + weight terms := rfl

theorem weight_append (xs ys : List Expr) : weight (xs ++ ys) = weight xs + weight ys := by
  induction xs with
  | nil => rw [nil_append, weight_nil, Nat.zero_add]
  | cons e rest ih => rw [cons_append, weight_cons, weight_cons, ih, Nat.add_assoc]

theorem weight_lt_sizeOf (op : Nary) (inner : List Expr) :
    weight inner < sizeOf (nary op inner) := by
  have hle : weight inner ≤ sizeOf inner := by
    induction inner with
    | nil => exact Nat.zero_le _
    | cons e rest ih =>
      rw [weight_cons, List.cons.sizeOf_spec]
      omega
  rw [nary.sizeOf_spec]
  omega

theorem weight_spread_le (op : Nary) (e : Expr) : weight (e.spread op) ≤ sizeOf e := by
  have hself : weight [e] ≤ sizeOf e := by
    rw [weight_cons, weight_nil]
    exact Nat.le_refl _
  cases e with
  | nary op' inner =>
    rw [spread]
    split
    · exact Nat.le_of_lt (weight_lt_sizeOf op' inner)
    · exact hself
  | _ => exact hself

theorem weight_foldl_pushNew_le (seen terms : List Expr) :
    weight (terms.foldl pushNew seen) ≤ weight seen + weight terms := by
  induction terms generalizing seen with
  | nil => exact Nat.le_add_right _ _
  | cons e rest ih =>
    have hpush : weight (pushNew seen e) ≤ weight seen + sizeOf e := by
      unfold pushNew
      split
      · exact Nat.le_add_right _ _
      · rw [weight_append, weight_cons, weight_nil]
        exact Nat.le_refl _
    have hrest := ih (pushNew seen e)
    rw [foldl_cons, weight_cons]
    omega

section

variable {op : Nary} {e : Expr} {terms : List Expr}

/-- A conjunction with the term is never true. -/
def isRefuted : Expr → Bool
  | no | null => true
  | _ => false

/-- A disjunction with the term is always true. -/
def isAffirmed : Expr → Bool
  | yes => true
  | _ => false

/-- The terms of operands with an operator, without the decided ones. -/
def flattened (op : Nary) (terms : List Expr) : List Expr :=
  (terms.filter (!·.isDecided)).flatMap (spread op)

theorem flattened_cons_decided (h : e.isDecided)
    (terms : List Expr) : flattened op (e :: terms) = flattened op terms := by
  rw [flattened, filter_cons_of_neg (by rw [h]; decide), flattened]

theorem flattened_cons (h : e.isDecided = false) (terms : List Expr) :
    flattened op (e :: terms) = e.spread op ++ flattened op terms := by
  rw [flattened, filter_cons_of_pos (by rw [h]; decide), flatMap_cons, flattened]

theorem flattened_eq_self
    (h : ∀ t ∈ terms, t.isDecided = false ∧ t.isNary op = false) : flattened op terms = terms := by
  induction terms with
  | nil => rfl
  | cons e rest ih =>
    rw [forall_mem_cons] at h
    rw [flattened_cons h.1.1, spread_of_isNary h.1.2, ih h.2, singleton_append]

theorem mem_flattened {t : Expr} (h : t ∈ flattened op terms) :
    ∃ e ∈ terms, e.isDecided = false ∧ t ∈ e.spread op := by
  obtain ⟨e, he, ht⟩ := mem_flatMap.1 h
  obtain ⟨hmem, hopen⟩ := mem_filter.1 he
  exact ⟨e, hmem, (not_eq_true' _).mp hopen, ht⟩

theorem weight_flattened_le (op : Nary) (terms : List Expr) :
    weight (flattened op terms) ≤ weight terms := by
  induction terms with
  | nil => exact Nat.le_refl _
  | cons e rest ih =>
    have hspread := weight_spread_le op e
    rw [weight_cons]
    by_cases h : e.isDecided
    · rw [flattened_cons_decided h]
      omega
    · rw [flattened_cons (not_eq_true _ ▸ h), weight_append]
      omega

theorem conjuncts?_eq (terms seen : List Expr) : conjuncts? terms seen =
      if terms.any isRefuted then none else some ((flattened .and terms).foldl pushNew seen) := by
  fun_induction conjuncts? terms seen with
  | case1 seen => rfl
  | case2 seen rest ih => rw [ih, flattened_cons_decided rfl]; rfl
  | case3 | case4 => rfl
  | case5 seen inner rest ih =>
    rw [ih, flattened_cons rfl, foldl_append]
    rfl
  | case6 e rest seen hyes hno hnull hand ih =>
    have hrefuted : e.isRefuted = false := by
      unfold isRefuted
      split
      · exact absurd rfl hno
      · exact absurd rfl hnull
      · rfl
    rw [ih, flattened_cons (isDecided_eq_false hyes hno hnull),
      spread_of_isNary (isNary_eq_false hand), any_cons, hrefuted, Bool.false_or,
      singleton_append, foldl_cons]

theorem disjuncts?_eq (terms seen : List Expr) : disjuncts? terms seen =
      if terms.any isAffirmed then none else some ((flattened .or terms).foldl pushNew seen) := by
  fun_induction disjuncts? terms seen with
  | case1 seen => rfl
  | case2 seen rest ih | case3 seen rest ih => rw [ih, flattened_cons_decided rfl]; rfl
  | case4 => rfl
  | case5 seen inner rest ih =>
    rw [ih, flattened_cons rfl, foldl_append]
    rfl
  | case6 e rest seen hno hnull hyes hor ih =>
    have haffirmed : e.isAffirmed = false := by
      unfold isAffirmed
      split
      · exact absurd rfl hyes
      · rfl
    rw [ih, flattened_cons (isDecided_eq_false hyes hno hnull),
      spread_of_isNary (isNary_eq_false hor), any_cons, haffirmed, Bool.false_or,
      singleton_append, foldl_cons]

end

/-- When the operands that are flattened all hold something open, so do the
    terms after flattening. -/
theorem open_flattened {terms : List Expr} (hopen : ∃ e ∈ terms, e.isConstant = false)
    (hinner : ∀ inner, nary op inner ∈ terms → ∃ t ∈ inner, t.isConstant = false) :
    ∃ t ∈ flattened op terms, t.isConstant = false := by
  obtain ⟨e, he, hconst⟩ := hopen
  have hmem : ∀ t ∈ e.spread op, t ∈ flattened op terms := by
    intro t ht
    refine mem_flatMap.2 ⟨e, mem_filter.2 ⟨he, ?_⟩, ht⟩
    rw [isDecided_of_not_isConstant hconst]
    rfl
  rcases spread_cases op e with ⟨inner, rfl, hspread⟩ | ⟨_, hspread⟩
  · obtain ⟨t, ht, htconst⟩ := hinner inner he
    exact ⟨t, hmem t (by rw [hspread]; exact ht), htconst⟩
  · refine ⟨e, hmem e ?_, hconst⟩
    rw [hspread]
    exact mem_singleton.2 rfl

section

variable {terms picks : List Expr}

/-- The term of a product that stands for a term of the conjunction: one of
    its alternatives if it has some, and the term itself otherwise. -/
def Picks (t p : Expr) : Prop := (∃ alts, t = or alts ∧ p ∈ alts) ∨ (t.isNary .or = false ∧ p = t)

theorem picks_of_mem_multiplyOut {choice : List Expr} {chosen : List (List Expr)}
    (h : choice ∈ multiplyOut terms chosen) :
    ∃ start ∈ chosen, ∃ picks, choice = start ++ picks ∧ Forall₂ Picks terms picks := by
  fun_induction multiplyOut terms chosen with
  | case1 chosen => exact ⟨choice, h, [], (append_nil _).symm, Forall₂.nil⟩
  | case2 alts rest chosen ih =>
    obtain ⟨start, hstart, picks, rfl, hpicks⟩ := ih h
    obtain ⟨before, hbefore, hstart⟩ := mem_flatMap.1 hstart
    obtain ⟨alt, halt, rfl⟩ := mem_map.1 hstart
    refine ⟨before, hbefore, alt :: picks, ?_, Forall₂.cons (.inl ⟨alts, rfl, halt⟩) hpicks⟩
    rw [append_assoc, singleton_append]
  | case3 e rest chosen hor ih =>
    obtain ⟨start, hstart, picks, rfl, hpicks⟩ := ih h
    obtain ⟨before, hbefore, rfl⟩ := mem_map.1 hstart
    refine ⟨before, hbefore, e :: picks, ?_, Forall₂.cons (.inr ⟨isNary_eq_false hor, rfl⟩) hpicks⟩
    rw [append_assoc, singleton_append]

theorem weight_picks_le (h : Forall₂ Picks terms picks) : weight picks ≤ weight terms := by
  induction h with
  | nil => exact Nat.le_refl _
  | cons hpick _ ih =>
    rw [weight_cons, weight_cons]
    rcases hpick with ⟨alts, rfl, halt⟩ | ⟨-, rfl⟩
    · have := sizeOf_child (e := or alts) halt
      omega
    · omega

/-- Picking makes a conjunction that holds alternatives lighter. -/
theorem weight_picks_lt (h : Forall₂ Picks terms picks)
    (hor : ∃ alts, or alts ∈ terms) : weight picks < weight terms := by
  induction h with
  | nil =>
    obtain ⟨alts, halts⟩ := hor
    cases halts
  | cons hpick hrest ih =>
    have hle := weight_picks_le hrest
    rw [weight_cons, weight_cons]
    rcases hpick with ⟨alts, rfl, halt⟩ | ⟨hop, rfl⟩
    · have := sizeOf_child (e := or alts) halt
      omega
    · obtain ⟨alts, halts⟩ := hor
      rcases mem_cons.1 halts with rfl | halts
      · cases hop
      · have := ih ⟨alts, halts⟩
        omega

theorem exists_or_of_multiplies (h : multiplies terms) : ∃ alts, or alts ∈ terms := by
  rw [multiplies, and_eq_true, not_eq_true', isEmpty_eq_false_iff_exists_mem] at h
  obtain ⟨alts, hmem⟩ := h.1
  obtain ⟨e, he, halts⟩ := mem_filterMap.1 hmem
  unfold alternativesOf? at halts
  split at halts
  · exact ⟨_, he⟩
  · cases halts

end

section

variable {terms seen : List Expr}

/-- The expression is never missing, by its own test. -/
def isCertain (e : Expr) : Bool := missingPlain e == no

theorem flatTerms_eq (terms : List Expr) : flatTerms terms = terms.flatMap (spread .coalesce) := by
  fun_induction flatTerms terms with
  | case1 => rfl
  | case2 inner rest ih => rw [ih, flatMap_cons]; rfl
  | case3 e rest hne ih =>
    rw [ih, flatMap_cons, spread_of_isNary (isNary_eq_false hne), singleton_append]

/-- The terms that the rule for choices leaves: none is null, and only the last may be certain. -/
structure Chosen (terms : List Expr) : Prop where
  distinct : Distinct terms
  present : ∀ t ∈ terms, t.isNull = false
  uncertain : ∀ t ∈ terms.dropLast, t.isCertain = false

theorem chosen_of_uncertain (hdistinct : Distinct terms)
    (h : ∀ t ∈ terms, t.isNull = false ∧ t.isCertain = false) : Chosen terms :=
  ⟨hdistinct, fun t ht => (h t ht).1, fun t ht => (h t ((dropLast_sublist _).subset ht)).2⟩

theorem chosen_candidates (hdistinct : Distinct seen)
    (hseen : ∀ t ∈ seen, t.isNull = false ∧ t.isCertain = false) :
    Chosen (candidates terms seen) := by
  induction terms generalizing seen with
  | nil => exact chosen_of_uncertain hdistinct hseen
  | cons e rest ih =>
    rw [candidates]
    split
    · exact ih hdistinct hseen
    next hnull =>
      split
      · -- the first certain term ends the list
        unfold pushNew
        split
        · exact chosen_of_uncertain hdistinct hseen
        next hnew =>
          refine ⟨?_, ?_, ?_⟩
          · have := distinct_pushNew (e := e) hdistinct
            rwa [pushNew, if_neg hnew] at this
          · rw [forall_mem_append]
            exact ⟨fun t ht => (hseen t ht).1, forall_mem_singleton.2 (not_eq_true _ ▸ hnull)⟩
          · rw [dropLast_concat]
            exact fun t ht => (hseen t ht).2
      next hcertain =>
        refine ih (distinct_pushNew hdistinct) (fun t ht => ?_)
        rcases mem_pushNew ht with ht | rfl
        · exact hseen t ht
        · exact ⟨not_eq_true _ ▸ hnull, not_eq_true _ ▸ hcertain⟩

theorem mem_candidates {t : Expr} (h : t ∈ candidates terms seen) : t ∈ seen ∨ t ∈ terms := by
  induction terms generalizing seen with
  | nil => exact .inl h
  | cons e rest ih =>
    have hpush : t ∈ pushNew seen e → t ∈ seen ∨ t ∈ e :: rest := by
      intro h
      rcases mem_pushNew h with h | rfl
      · exact .inl h
      · exact .inr mem_cons_self
    rw [candidates] at h
    split at h
    · exact (ih h).imp_right (mem_cons_of_mem _)
    · split at h
      · exact hpush h
      · rcases ih h with h | h
        · exact hpush h
        · exact .inr (.tail _ h)

theorem candidates_eq_self (h : Chosen (seen ++ terms)) :
    candidates terms seen = seen ++ terms := by
  induction terms generalizing seen with
  | nil => rw [candidates, append_nil]
  | cons e rest ih =>
    have hpresent := h.present e (mem_append_right _ mem_cons_self)
    have hnew : pushNew seen e = seen ++ [e] := by
      have hdistinct : Distinct (seen ++ [e]) := by
        have := h.distinct
        rw [append_cons] at this
        exact (pairwise_append.1 this).1
      exact @foldl_pushNew_eq seen [e] hdistinct
    rw [candidates, hpresent, hnew]
    simp only [false_eq_true, if_false]
    cases rest with
    | nil => exact ite_self _
    | cons next rest =>
      have hcertain : (missingPlain e == no) = false := by
        refine h.uncertain e ?_
        rw [dropLast_append_of_ne_nil (cons_ne_nil _ _), dropLast_cons_cons]
        exact mem_append_right _ mem_cons_self
      rw [hcertain, if_neg Bool.false_ne_true, ih, append_assoc, singleton_append]
      rwa [append_assoc, singleton_append]

end

end Snowbank.Expr
