import Snowbank.Proofs.Simplify.Connective

/-!
# Closed Classes of Normal Forms

In a closed class the tests that the rules write can be built up piece by piece.
Two kinds of class will turn out to be closed: first the normal forms whose
tests are known to settle, and in the end all normal forms of a level.

## Main definitions

* `Closed`: Passes do not leave the class: not over its members or their
  tests, nor over conjunctions and negations of what settles in it.

## Theorems

* `Closed.settles_basic`: Comparisons of operands that are there settle.
* `Closed.settles_when`: Choices between two values settle.
-/

namespace Snowbank.Expr

open List Bool Normal Option

/-- A class of normal forms that passes do not leave. -/
structure Closed (s : Schema) (n : Nat) (P : Expr → Prop) : Prop extends Forms s n P where
  self : ∀ {r}, P r → Settles s P r
  missing : ∀ {r}, P r → Settles s P (missingPlain r)
  and : ∀ {terms : List Expr}, (∀ t ∈ terms, Settles s P t) → Settles s P (and terms)
  not : ∀ {x}, Settles s P x → Settles s P (not x)

/-- A comparison that is written as it is. -/
def Binary.isBasic : Binary → Bool
  | .basicEq | .basicCompare _ => true
  | _ => false

namespace Closed

variable {a b x cond y : Expr}

variable {s : Schema} {n : Nat} {P : Expr → Prop} (hP : Closed s n P)

include hP

variable {terms : List Expr} {op : Binary} {a b : Expr} {path : Path} {type : DataType}

theorem or (h : ∀ t ∈ terms, Settles s P t) : Settles s P (or terms) := hP.toForms.settles_or h

theorem settles_no : Settles s P no := settles_const (hP.const rfl)

theorem settles_int (i : Int) : Settles s P (int i) :=
  settles_const (hP.const (Json.definite_int i))

theorem or_two (ha : Settles s P a) (hb : Settles s P b) : Settles s P (.or [a, b]) :=
  hP.or (forall_mem_cons.2 ⟨ha, forall_mem_singleton.2 hb⟩)

theorem and_two (ha : Settles s P a) (hb : Settles s P b) : Settles s P (.and [a, b]) :=
  hP.and (forall_mem_cons.2 ⟨ha, forall_mem_singleton.2 hb⟩)

/-- A normal form that is no connective and never missing is in the class. -/
theorem certain_mem {r : Expr} (hr : Normal s n r) (hconn : r.isConnective = false)
    (hmissing : missingPlain r = no) : P r := by
  refine hP.accepts hr (fun h => ?_) ?_
  · rw [hconn] at h
    cases h
  · rw [hmissing]
    exact hP.settles_no

theorem settles_present (hx : P x) : Settles s P (presentPlain x) := hP.not (hP.missing hx)

theorem settles_basic (hop : Binary.isBasic op)
    (ha : Settles s P a) (hb : Settles s P b) : Settles s P (binary op a b) := by
  obtain ⟨a', ha, hpa⟩ := ha
  obtain ⟨b', hb, hpb⟩ := hb
  have hbelow : ∀ c ∈ (binary op a' b').children, Normal s n c :=
    forall_mem_cons.2 ⟨hP.normal hpa, forall_mem_singleton.2 (hP.normal hpb)⟩
  have hdef : (binary op a' b').Definite :=
    (definite_iff _).2 ⟨trivial, fun c hc => (hbelow c hc).definite⟩
  refine settles_of_operands rfl (by rw [passOperands?, ha, hb]; rfl)
    (resolves_rewrite hdef rfl hP.const (fun hopen => ?_))
  have hmem : BinaryShape a' b' op → missingPlain (binary op a' b') = no → P (binary op a' b') :=
    fun hshape hmissing => hP.certain_mem
      (node (fun h => Bool.noConfusion h) hshape (fun _ => hopen) hbelow) rfl hmissing
  cases op with
  | basicEq | basicCompare o => exact resolves_done (hmem trivial rfl)
  | _ => cases hop

theorem settles_missing_when (hc : Settles s P cond)
    (hx : Settles s P (missingPlain x)) (hy : Settles s P (missingPlain y)) :
    Settles s P (missingPlain (when cond x y)) :=
  hP.or_two (hP.and_two hc hx) (hP.and_two (hP.not hc) hy)

theorem resolves_when (hc : P cond) (hx : P x) (hy : P y) :
    Resolves s P (when cond x y).rewrite := by
  have hbelow : ∀ c ∈ (when cond x y).children, Normal s n c :=
    forall_mem_cons.2 ⟨hP.normal hc, forall_mem_cons.2
      ⟨hP.normal hx, forall_mem_singleton.2 (hP.normal hy)⟩⟩
  have hdef : (when cond x y).Definite :=
    (definite_iff _).2 ⟨trivial, fun c hc => (hbelow c hc).definite⟩
  refine resolves_rewrite hdef rfl hP.const (fun hopen => ?_)
  rw [reduce]
  by_cases hdecided : cond.isDecided
  · unfold isDecided at hdecided
    split at hdecided
    · exact resolves_done hx
    · exact resolves_done hy
    · exact resolves_done hy
    · cases hdecided
  · rw [not_eq_true] at hdecided
    rw [reduceWhen_eq hdecided]
    split
    · exact resolves_done hx
    next hdiffer =>
      split
      · have hcond := hP.self hc
        exact resolves_again (hP.or_two (hP.and_two hcond (hP.self hx))
          (hP.and_two (hP.not hcond) (hP.self hy)))
      next htypes =>
        refine resolves_done (hP.accepts ?_ (fun h => Bool.noConfusion h)
          (hP.settles_missing_when (hP.self hc) (hP.missing hx) (hP.missing hy)))
        exact node (fun h => Bool.noConfusion h)
          ⟨hdecided, not_eq_true _ ▸ hdiffer, not_eq_true _ ▸ htypes⟩
          (fun _ => hopen) hbelow

theorem settles_when (hc : Settles s P cond) (hx : Settles s P x)
    (hy : Settles s P y) : Settles s P (when cond x y) := by
  obtain ⟨c', hc, hpc⟩ := hc
  obtain ⟨x', hx, hpx⟩ := hx
  obtain ⟨y', hy, hpy⟩ := hy
  exact settles_of_operands rfl (by rw [passOperands?, hc, hx, hy]; rfl)
    (hP.resolves_when hpc hpx hpy)

theorem missing_mem (hx : Normal s n x) (hconst : x.isConstant = false)
    (htest : (missingPlain x == unary .missing x)) : P (unary .missing x) := by
  refine hP.certain_mem (node (fun h => Bool.noConfusion h) htest (fun _ => ?_)
    (forall_mem_singleton.2 hx)) rfl rfl
  rw [children, all_cons, hconst, Bool.false_and]

theorem settles_missing (hx : Settles s P x) : Settles s P (unary .missing x) := by
  obtain ⟨x', hx, hpx⟩ := hx
  have hdef : (unary .missing x').Definite :=
    (definite_iff _).2 ⟨trivial, forall_mem_singleton.2 (hP.normal hpx).definite⟩
  refine settles_of_operands rfl (by rw [passOperands?, hx]; rfl)
    (resolves_rewrite hdef rfl hP.const (fun hopen => ?_))
  have hconst : x'.isConstant = false := by simpa [children] using hopen
  rw [reduce, reduceUnary]
  split
  next htest => exact resolves_done (hP.missing_mem (hP.normal hpx) hconst htest)
  · exact resolves_again (hP.missing hpx)

theorem settles_missing_var (h : Normal s n (var path type)) :
    Settles s P (missingPlain (var path type)) := by
  rw [missingPlain, missingWith]
  split
  · exact hP.settles_no
  next hroot =>
    have htest : (missingPlain (var path type) == unary .missing (var path type)) := by
      rw [missingPlain, missingWith, if_neg hroot]
      exact (definite_iff _).2 ⟨trivial, forall_mem_singleton.2 h.definite⟩
    refine settles_of_operands rfl (by rw [passOperands?, pass?_var h]; rfl) ?_
    have hmem := hP.missing_mem h rfl htest
    rw [rewrite_of_shape (hP.normal hmem).shape ((hP.normal hmem).isOpen rfl)]
    exact resolves_done hmem

theorem alternative_mem (ha : P a)
    (halts : a.alternatives? = some terms) {x : Expr} (hx : x ∈ terms) :
    ∃ path type, x = var path type ∧ P x := by
  unfold alternatives? at halts
  split at halts
  next path type y rest =>
    split at halts
    next hall =>
      rw [some.injEq] at halts
      rw [← halts] at hx
      have hscalar := all_eq_true.1 hall x hx
      have hnormal : Normal s n x := (hP.normal ha).child hx
      cases x with
      | var p t =>
        exact ⟨p, t, rfl, hP.accepts hnormal (fun h => Bool.noConfusion h)
          (hP.settles_missing_var hnormal)⟩
      | _ => cases hscalar
    · cases halts
  · cases halts

theorem branch_mem (ha : P a) (hx : x ∈ a.branches) : P x := by
  unfold branches at hx
  cases halts : a.alternatives? with
  | none =>
    rw [halts] at hx
    rw [mem_singleton.1 hx]
    exact ha
  | some terms =>
    rw [halts] at hx
    obtain ⟨_, _, _, hmem⟩ := hP.alternative_mem ha halts hx
    exact hmem

theorem settles_pairing (hop : Binary.isBasic op) (ha : P a)
    (hb : P b) : ∀ t ∈ pairings a b (binary op), Settles s P t := by
  intro t ht
  obtain ⟨x, hx, ht⟩ := mem_flatMap.1 ht
  obtain ⟨y, hy, ht⟩ := mem_filterMap.1 ht
  split at ht
  · cases ht
  · rw [some.injEq] at ht
    rw [← ht]
    have hpx := hP.branch_mem ha hx
    have hpy := hP.branch_mem hb hy
    refine hP.and (forall_mem_cons.2 ⟨hP.settles_present hpx, forall_mem_cons.2
      ⟨hP.settles_present hpy, forall_mem_singleton.2 ?_⟩⟩)
    exact hP.settles_basic hop (hP.self hpx) (hP.self hpy)

/-- A choice of clauses of which only the first can be taken. -/
theorem resolves_only_clause {test other : Expr} (ht : P test) (ho : P other) :
    Resolves s P (case [(test, no), (no, no)] other).rewrite := by
  have hdef : (case [(test, no), (no, no)] other).Definite := by
    refine (definite_iff _).2 ⟨trivial, ?_⟩
    have hno : no.Definite := definite_const rfl
    simp only [children, flatMap_cons, flatMap_nil, cons_append, nil_append, forall_mem_cons]
    exact ⟨(hP.normal ht).definite, hno, hno, hno, (hP.normal ho).definite, forall_mem_nil _⟩
  refine resolves_rewrite hdef rfl hP.const (fun _ => ?_)
  rw [reduce]
  -- a decided test drops its clause in this step, any other keeps it
  by_cases hdecided : test.isDecided
  · unfold isDecided at hdecided
    split at hdecided
    · exact resolves_done (hP.const rfl)
    · exact resolves_done ho
    · exact resolves_done ho
    · cases hdecided
  · rw [not_eq_true] at hdecided
    have hlive : liveClauses other [(test, no), (no, no)] = ([(test, no)], other) := by
      unfold liveClauses
      split
      next heq => cases heq
      next heq =>
        cases heq
        cases hdecided
      next heq =>
        cases heq
        cases hdecided
      next heq =>
        cases heq
        cases hdecided
      next heq =>
        cases heq
        rfl
    rw [reduceCase, hlive]
    dsimp only
    split
    · exact resolves_done ho
    · exact resolves_again (hP.settles_when (hP.self ht) hP.settles_no (hP.self ho))

theorem settles_eq_zero (hb : Settles s P b) : Settles s P (binary .eq b (int 0)) := by
  obtain ⟨b', hb, hpb⟩ := hb
  have hzero : P (int 0) := hP.const (Json.definite_int 0)
  have hint : pass? s (int 0) = some (int 0) := pass?_of_normal (Normal.int 0)
  have hdef : (binary .eq b' (int 0)).Definite := (definite_iff _).2 ⟨trivial, forall_mem_cons.2
      ⟨(hP.normal hpb).definite, forall_mem_singleton.2 (hP.normal hzero).definite⟩⟩
  refine settles_of_operands rfl (by rw [passOperands?, hb, hint]; rfl)
    (resolves_rewrite hdef rfl hP.const (fun hopen => ?_))
  have hconst : b'.isConstant = false := by simpa [children, int, isConstant, constant?] using hopen
  have hdiffer : (b' == int 0) = false := by
    rw [← not_eq_true] at hconst ⊢
    exact fun heq => hconst (isConstant_of_beq heq rfl)
  have hboth : Settles s P (.and [missingPlain b', missingPlain (int 0)]) :=
    hP.and_two (hP.missing hpb) (hP.missing hzero)
  rw [reduce, reduceBinary, reduceEq_eq (isNull_of_not_isConstant hconst) rfl hdiffer]
  split
  · exact resolves_again (hP.or (forall_mem_cons.2
      ⟨hboth, hP.settles_pairing rfl hpb hzero⟩))
  · split
    · exact resolves_again hboth
    · obtain ⟨test, htest, hptest⟩ := hP.missing hpb
      rcases hP.settles_basic (show Binary.isBasic .basicEq = true from rfl) (hP.self hpb)
        (hP.settles_int 0) with
        ⟨other, hother, hpother⟩
      have hno : pass? s no = some no := pass?_of_normal Normal.no
      refine resolves_again (settles_of_operands rfl ?_ (hP.resolves_only_clause hptest hpother))
      have hnone : missingPlain (int 0) = no := rfl
      simp only [passOperands?, hnone, mapM_cons, mapM_nil, htest, hno, hother]
      rfl

end Closed

end Snowbank.Expr
