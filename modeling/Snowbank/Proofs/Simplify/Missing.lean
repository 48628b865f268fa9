import Snowbank.Proofs.Simplify.Closed

/-!
# Tests for Missing Values

A test for a missing value is made of tests of the operands and of the
conditions they stand under. So it settles when these do, which is the first
half of this module.

The second half shows that normal forms of level zero are a closed class. A
negation may turn into a test, and a test may hold negations of conditions
beneath, so neither can be done before the other. Calm normal forms are closed,
by induction on how that is known for negations and on weight for conjunctions,
and then every normal form is calm by induction on the tree.

## Main definitions

* `Tame`: Negating the expression comes to an end.
* `Calm`: A normal form whose negations and tests come to an end.

## Theorems

* `tame_of_normal`: Every normal form is tame.
* `closed_zero`: Normal forms of level zero are a closed class.
-/

namespace Snowbank.Expr

open List

variable {x e : Expr} {terms : List Expr}

namespace Closed

variable {s : Schema} {n : Nat} {P : Expr → Prop} (hP : Closed s n P)

theorem settles_missingAll (h : ∀ t ∈ terms, Settles s P (missingPlain t)) :
    ∀ t ∈ missingAll (unary .missing) terms, Settles s P t := by
  intro t ht
  rw [missingAll_eq_map] at ht
  obtain ⟨x, hx, rfl⟩ := mem_map.1 ht
  exact h x hx

include hP

theorem settles_missingCase {clauses : List (Expr × Expr)} {other : Expr}
    (h : ∀ c ∈ clauses, Settles s P c.1 ∧ Settles s P (missingPlain c.2))
    (hother : Settles s P other) : Settles s P (missingCase (unary .missing) clauses other) := by
  induction clauses with
  | nil => exact hother
  | cons clause rest ih =>
    rw [forall_mem_cons] at h
    exact hP.or_two (hP.and_two h.1.1 h.1.2) (hP.and_two (hP.not h.1.1) (ih h.2))

/-- The test of an expression settles when its operands and their tests do.
    Where the test stays as it is, that has to be known beforehand. -/
theorem settles_missingPlain (hshape : Shape s x)
    (hself : missingPlain x = unary .missing x → Settles s P (unary .missing x))
    (h : ∀ c ∈ x.children, Settles s P c ∧ Settles s P (missingPlain c)) :
    Settles s P (missingPlain x) := by
  have htest : ∀ c ∈ x.children, Settles s P (missingPlain c) := fun c hc => (h c hc).2
  rw [forall_mem_children] at h
  cases x with
  | const v => exact settles_const (hP.const (Json.definite_bool _))
  | date | leaves | member | matching | select | indexOf => exact hP.settles_no
  | var path type =>
    by_cases hroot : (path == Path.root)
    · rw [missingPlain, missingWith, if_pos hroot]
      exact hP.settles_no
    · have hplain : missingPlain (var path type) = unary .missing (var path type) := by
        rw [missingPlain, missingWith, if_neg hroot]
      rw [hplain]
      exact hself hplain
  | offset | script | rows => exact hself rfl
  | unary op y =>
    have hy := htest y mem_cons_self
    cases op with
    | not | missing | present | isType => exact hP.settles_no
    | first | last | length => exact hy
    | convert type =>
      cases type with
      | boolean => exact hP.settles_no
      | _ => exact hy
  | binary op a b =>
    cases op with
    | get => exact hself rfl
    | split => exact htest a mem_cons_self
    | side => exact hshape.elim
    | _ => exact hP.settles_no
  | nary op terms =>
    cases op with
    | coalesce | min | max => exact hP.and (settles_missingAll htest)
    | _ => exact hP.settles_no
  | when cond a b => exact hP.settles_missing_when h.1.1 h.2.1.2 h.2.2.2
  | case clauses other =>
    exact hP.settles_missingCase (fun c hc => ⟨(h.1 c hc).1.1, (h.1 c hc).2.2⟩) h.2.2
  -- a quotient is also missing where the divisor is zero
  | arith op a b other =>
    have hzero : ∀ t ∈ (if op.divides then [binary .eq b (int 0)] else []), Settles s P t := by
      split
      · exact forall_mem_singleton.2 (hP.settles_eq_zero h.2.1.1)
      · exact forall_mem_nil _
    refine hP.and_two (hP.or ?_) h.2.2.2
    rw [forall_mem_append]
    exact ⟨forall_mem_cons.2 ⟨h.1.2, forall_mem_singleton.2 h.2.1.2⟩, hzero⟩
  | fold op terms nulls other =>
    have htests := settles_missingAll (fun t ht => (h.1 t ht).2)
    refine hP.and_two ?_ h.2.2
    split
    · exact hP.and htests
    · exact hP.or htests
  | concat terms separator other =>
    exact hP.and_two (hP.and (settles_missingAll (fun t ht => (h.1 t ht).2))) h.2.2
  -- no node of normal shape is of these kinds
  | range | find | between => exact hshape.elim
  | substring text start stop => exact htest text mem_cons_self

end Closed

/-- Negating an expression comes to an end: it is a connective whose operands
    are tame, or its test settles in a tame normal form. -/
inductive Tame (s : Schema) : Expr → Prop
  | const (v : Json) : Tame s (const v)
  | connective {e : Expr} (conn : e.isConnective) (below : ∀ c ∈ e.children, Tame s c) :
      Tame s e
  | test {e r : Expr} (conn : e.isConnective = false) (result : pass? s (missingPlain e) = some r)
      (normal : Normal s 0 r) (tame : Tame s r) : Tame s e

/-- A normal form whose negations and tests come to an end. -/
def Calm (s : Schema) (e : Expr) : Prop := Normal s 0 e ∧ Tame s e

section

variable {s : Schema}

theorem forms_calm : Forms s 0 (Calm s) where
  normal := fun h => h.1
  const := fun h => ⟨Normal.ofConst h, .const _⟩
  accepts := by
    intro r hr hbelow htest
    refine ⟨hr, ?_⟩
    by_cases hconn : r.isConnective
    · exact .connective hconn (fun c hc => (hbelow hconn c hc).2)
    · obtain ⟨t, ht, hcalm⟩ := htest
      exact .test (Bool.not_eq_true _ ▸ hconn) ht hcalm.1 hcalm.2
  term := by
    rintro r ⟨hr, htame⟩ hconn c hc
    refine ⟨hr.child hc, ?_⟩
    cases htame with
    | const => cases hconn
    | connective _ below => exact below c hc
    | test hnot => rw [hconn] at hnot; cases hnot

theorem Calm.pass? (h : Calm s e) : pass? s e = some e := pass?_of_normal h.1

theorem settles_of_calm (hbound : e.isBound = false) (h : ∀ c ∈ e.children, Calm s c)
    (hrules : Resolves s (Calm s) e.rewrite) : Settles s (Calm s) e :=
  settles_of_operands hbound (passOperands?_eq_self (fun c hc => (h c hc).pass?)) hrules

/-- Conjunctions of calm terms settle. -/
theorem resolves_and_calm (w : Nat) : ∀ {terms : List Expr}, weight terms < w →
    (∀ t ∈ terms, Calm s t) → Resolves s (Calm s) (and terms).rewrite := by
  -- by induction on weight: a product holds one alternative where there were several
  induction w with
  | zero => exact fun hlt => absurd hlt (Nat.not_lt_zero _)
  | succ w ih =>
    intro terms hlt h
    refine forms_calm.resolves_and h (fun kept hkept hweight hmul => ?_)
    refine forms_calm.settles_or (fun t ht => ?_)
    obtain ⟨choice, hchoice, rfl⟩ := mem_map.1 ht
    obtain ⟨start, hstart, picks, rfl, hpicks⟩ := picks_of_mem_multiplyOut hchoice
    rw [mem_singleton.1 hstart, nil_append]
    have hcalm := forms_calm.picks_mem hkept hpicks
    have hlighter := weight_picks_lt hpicks (exists_or_of_multiplies hmul)
    exact settles_of_calm rfl hcalm (ih (by omega) hcalm)

theorem settles_and_calm (h : ∀ t ∈ terms, Settles s (Calm s) t) : Settles s (Calm s) (and terms) :=
  settles_of_children rfl h fun _ hf _ =>
    resolves_and_calm _ (Nat.lt_succ_self _) (forall_mem_map.2 hf)

/-- Negations of calm normal forms settle. -/
theorem resolves_not_calm (h : Calm s x) : Resolves s (Calm s) (not x).rewrite := by
  -- by induction on why they are tame
  obtain ⟨hnormal, htame⟩ := h
  induction htame with
  | const v =>
    refine forms_calm.resolves_not ⟨hnormal, .const v⟩ (fun _ h => ?_) (fun _ h => ?_) (fun _ => ?_)
    · cases h
    · cases h
    · exact settles_const (forms_calm.const (Json.definite_bool _))
  | @connective e conn below ih =>
    have hbelow : ∀ c ∈ e.children, Calm s c := fun c hc => ⟨hnormal.child hc, below c hc⟩
    have hnot : ∀ c ∈ e.children, Settles s (Calm s) (not c) := fun c hc =>
      settles_of_calm rfl (forall_mem_singleton.2 (hbelow c hc)) (ih c hc (hnormal.child hc))
    have hterms : ∀ terms : List Expr, e.children = terms →
        ∀ t ∈ terms.map not, Settles s (Calm s) t := by
      intro terms heq t ht
      obtain ⟨c, hc, rfl⟩ := mem_map.1 ht
      exact hnot c (heq ▸ hc)
    refine forms_calm.resolves_not ⟨hnormal, .connective conn below⟩ (fun terms h => ?_)
      (fun terms h => ?_) (fun h => ?_)
    · exact forms_calm.settles_or (hterms terms (h ▸ rfl))
    · exact settles_and_calm (hterms terms (h ▸ rfl))
    · rw [conn] at h
      cases h
  | @test e r conn result normal tame ih =>
    refine forms_calm.resolves_not ⟨hnormal, .test conn result normal tame⟩ (fun _ h => ?_)
      (fun _ h => ?_) (fun _ => ⟨r, result, normal, tame⟩)
    · rw [h] at conn
      cases conn
    · rw [h] at conn
      cases conn

theorem closed_calm : Closed s 0 (Calm s) where
  toForms := forms_calm
  self := fun {r} h => ⟨r, h.pass?, h⟩
  missing := by
    rintro r ⟨hr, htame⟩
    cases htame with
    | const v => exact settles_const (forms_calm.const (Json.definite_bool _))
    | connective conn _ =>
      have hno : missingPlain r = no := by
        unfold isConnective at conn
        split at conn
        · rfl
        · rfl
        · rfl
        · cases conn
      rw [hno]
      exact settles_const (forms_calm.const rfl)
    | test _ result normal tame => exact ⟨_, result, normal, tame⟩
  and := settles_and_calm
  not := by
    rintro x ⟨x', hx, hcalm⟩
    exact settles_of_operands rfl (by rw [passOperands?, hx]; rfl) (resolves_not_calm hcalm)

theorem tame_of_normal (h : Normal s 0 e) : Tame s e := by
  generalize hn : 0 = n at h
  induction h with
  | late => exact absurd hn (Nat.succ_ne_zero _).symm
  | @node n e level shape stays below ih =>
    subst hn
    have hnormal : Normal s 0 e := .node level shape stays below
    have hcalm : ∀ c ∈ e.children, Calm s c := fun c hc => ⟨below c hc, ih c hc rfl⟩
    by_cases hconn : e.isConnective
    · exact .connective hconn (fun c hc => (hcalm c hc).2)
    · have hself : missingPlain e = unary .missing e → Settles s (Calm s) (unary .missing e) := by
        intro hplain
        have hconst : e.isConstant = false := by
          cases e with
          | const | date => cases hplain
          | _ => rfl
        have htest : (missingPlain e == unary .missing e) := by
          rw [hplain]
          exact (definite_iff _).2 ⟨trivial, forall_mem_singleton.2 hnormal.definite⟩
        have hmem := closed_calm.missing_mem hnormal hconst htest
        exact ⟨_, hmem.pass?, hmem⟩
      rcases closed_calm.settles_missingPlain shape hself (fun c hc =>
        ⟨closed_calm.self (hcalm c hc), closed_calm.missing (hcalm c hc)⟩) with ⟨r, hr, hcalm⟩
      exact .test (Bool.not_eq_true _ ▸ hconn) hr hcalm.1 hcalm.2

theorem closed_zero : Closed s 0 (Normal s 0) := by
  have heq : Calm s = Normal s 0 :=
    funext fun e => propext ⟨fun h => h.1, fun h => ⟨h, tame_of_normal h⟩⟩
  exact heq ▸ closed_calm

end

end Snowbank.Expr
