import Snowbank.Proofs.Expr.Equal
import Snowbank.Proofs.Simplify.Converge
import Snowbank.Proofs.Snowflake.Growth

/-!
# Simplifying Twice

Passes are repeated until one gives an expression that equals the last. What
is returned then is a fixed point: equal trees hold constants at the same
places, so they are normal at the same level, and an expression that a pass
leaves equal is of every level below its own.

The number of passes is limited. Choices have to be nested deeper than the
limit for that to matter, and then it does.

## Main definitions

* `nestedChoice`: Choices nested in each other's conditions.

## Theorems

* `simplify_idempotent`: Simplifying ends in a fixed point.
* `simplify_not_idempotent`: Nested too deep, it does not.
-/

namespace Snowbank.Expr

open Option

variable {x y : Expr} {s : Schema}

section

/-- Where the operands of one tree are not all constants, neither are those of an equal tree. -/
theorem Equal.open_children (h : Equal x y)
    (hopen : x.children.all isConstant = false) : y.children.all isConstant = false := by
  obtain ⟨c, hc, hconst⟩ := exists_open hopen
  have hflip : List.Forall₂ (flip Equal) y.children x.children := .flip h.children.1
  obtain ⟨d, hd, hcd⟩ := exists_left_of_forall₂ hflip c hc
  refine all_isConstant_eq_false ⟨d, hd, ?_⟩
  rw [← Bool.not_eq_true] at hconst ⊢
  exact fun hd => hconst (isConstant_of_beq hcd hd)

variable {s : Schema}

/-- Equal normal forms are normal at the same level. -/
theorem normal_of_equal {m n : Nat} (hx : Normal s m x) (hy : Normal s n y)
    (h : Equal x y) : Normal s m y := by
  induction hx generalizing n y with
  | @node m x level shape stays below ih =>
    have hbelow : ∀ d ∈ y.children, Normal s m d := by
      intro d hd
      obtain ⟨c, hc, hcd⟩ := exists_left_of_forall₂ h.children.1 d hd
      exact ih c hc (hy.child hd) hcd
    refine .node (fun hcase => level (h.children.2.trans hcase)) hy.shape ?_ hbelow
    by_cases hcase : y.isCase
    · refine fun _ => h.open_children (stays ?_)
      have hx : x.isCase := h.children.2.trans hcase
      cases x with
      | case => rfl
      | _ => cases hx
    · exact hy.isOpen (Bool.not_eq_true _ ▸ hcase)
  | @late m clauses other shape below ih =>
    have hcase : y.isCase := h.children.2.symm
    cases y with
    | case clauses' other' =>
      refine .late hy.shape (fun d hd => ?_)
      obtain ⟨c, hc, hcd⟩ := exists_left_of_forall₂ h.children.1 d hd
      exact ih c hc (hy.child hd) hcd
    | _ => cases hcase

end

section

variable {s : Schema} (hs : s.Stored)

include hs

variable {n : Nat} {e : Expr}

/-- A normal form that a pass leaves equal has nothing left to simplify. -/
theorem normal_zero_of_equal {next : Expr} (he : Normal s n e)
    (hpass : pass? s e = some next) (h : Equal next e) : Normal s 0 e := by
  induction n with
  | zero => exact he
  | succ n ih =>
    obtain ⟨r, hr, hnormal⟩ := settles_of_normal hs he
    rw [hpass, some.injEq] at hr
    subst hr
    exact ih (normal_of_equal hnormal he h)

theorem exists_settle? (h : Normal s n e) (limit : Nat) : ∃ r, settle? s limit e = some r := by
  induction limit generalizing n e with
  | zero => exact ⟨e, rfl⟩
  | succ limit ih =>
    have hnext : ∃ m next, pass? s e = some next ∧ Normal s m next := by
      cases n with
      | zero => exact ⟨0, e, pass?_of_normal h, h⟩
      | succ n => exact ⟨n, settles_of_normal hs h⟩
    obtain ⟨m, next, hpass, hnormal⟩ := hnext
    rw [settle?, hpass]
    change ∃ r, (if next == e then some e else settle? s limit next) = some r
    split
    · exact ⟨e, rfl⟩
    · exact ih hnormal

/-- Repeating passes arrives at an expression with nothing left to simplify,
    and a limit above the level makes no difference. -/
theorem settle?_of_normal (h : Normal s n e) :
    ∃ r, Normal s 0 r ∧ ∀ limit, n < limit → settle? s limit e = some r := by
  induction n generalizing e with
  | zero =>
    refine ⟨e, h, fun limit hlimit => ?_⟩
    cases limit with
    | zero => exact absurd hlimit (Nat.lt_irrefl 0)
    | succ limit =>
      rw [settle?, pass?_of_normal h]
      exact if_pos h.definite
  | succ n ih =>
    obtain ⟨next, hpass, hnormal⟩ := settles_of_normal hs h
    by_cases hequal : (next == e)
    · refine ⟨e, normal_zero_of_equal hs h hpass hequal, fun limit hlimit => ?_⟩
      cases limit with
      | zero => exact absurd hlimit (Nat.not_lt_zero _)
      | succ limit =>
        rw [settle?, hpass]
        exact if_pos hequal
    · obtain ⟨r, hr, hsettle⟩ := ih hnormal
      refine ⟨r, hr, fun limit hlimit => ?_⟩
      cases limit with
      | zero => exact absurd hlimit (Nat.not_lt_zero _)
      | succ limit =>
        rw [settle?, hpass]
        exact (if_neg hequal).trans (hsettle limit (Nat.lt_of_succ_lt_succ hlimit))

/-- Passes over an expression have results, however many there are. -/
theorem simplify_of_definite (he : e.Definite) :
    ∃ first, pass? s e = some first ∧ settle? s (maxPasses - 1) first = some (simplify s e) := by
  obtain ⟨first, hfirst, hnormal⟩ := settles_of_choiceDepth hs he (Nat.le_refl _)
  obtain ⟨r, hr⟩ := exists_settle? hs hnormal (maxPasses - 1)
  refine ⟨first, hfirst, ?_⟩
  rw [simplify, hfirst, bind_some, hr]
  rfl

end

theorem settle?_of_fixed {r : Expr} (hfixed : pass? s r = some r) (hr : r.Definite)
    (limit : Nat) : settle? s limit r = some r := by
  cases limit with
  | zero => rfl
  | succ limit =>
    rw [settle?, hfixed]
    exact if_pos hr

/-- Simplifying comes to an end. Passes over any expression lead to a fixed point, and whatever
    limit above the depth of its choices is set on their number gives the same. So the limit that
    there is ends nothing early unless choices are nested deeper than that, and simplifying twice is
    simplifying once. -/
theorem simplify_fixed (hs : s.Stored) {e : Expr} (he : e.Definite) :
    ∃ r, pass? s r = some r ∧ r.Definite ∧
      (∀ limit, e.choiceDepth < limit → (pass? s e).bind (settle? s limit) = some r) ∧
      (e.choiceDepth < maxPasses - 1 → simplify s e = r ∧ simplify s r = r) := by
  obtain ⟨first, hfirst, hnormal⟩ := settles_of_choiceDepth hs he (Nat.le_refl _)
  obtain ⟨r, hr, hsettle⟩ := settle?_of_normal hs hnormal
  have hlimit : ∀ limit, e.choiceDepth < limit → (pass? s e).bind (settle? s limit) = some r := by
    intro limit h
    rw [hfirst, bind_some]
    exact hsettle limit h
  have hfixed := pass?_of_normal hr
  refine ⟨r, hfixed, hr.definite, hlimit, fun h => ⟨?_, ?_⟩⟩
  · rw [simplify, hlimit _ h]
    rfl
  · rw [simplify, hfixed, bind_some, settle?_of_fixed hfixed hr.definite]
    rfl

/-- Where there is no schema, no type is known that is not a stored one. -/
theorem stored_untyped : Schema.untyped.Stored := by
  intro path types h
  cases h

/-- What queries see of a grown catalog are stored types, each once. -/
theorem stored_schema {f : Snowflake} (h : f.Grown) : f.schema.Stored := by
  intro path types htypes
  have htypes : f.typesAt path = types := some.inj htypes
  rw [← htypes]
  exact ⟨(Ordered.increasing_elems _).nodup, fun t ht => h.keepsStored.typesAt ht⟩

/-- Whether a catalog is known or not, passes over an expression lead to a fixed point, which the
    limit on their number does not change, and simplifying that again leaves it as it is. -/
theorem simplify_idempotent {s : Schema}
    (hs : s = .untyped ∨ ∃ f : Snowflake, f.Grown ∧ s = f.schema) {e : Expr} (he : e.Definite)
    (hdeep : e.choiceDepth < maxPasses - 1) :
    pass? s (simplify s e) = some (simplify s e) ∧
      (∀ limit, e.choiceDepth < limit → (pass? s e).bind (settle? s limit) = some (simplify s e)) ∧
      simplify s (simplify s e) = simplify s e := by
  have hstored : s.Stored := by
    rcases hs with rfl | ⟨f, hf, rfl⟩
    · exact stored_untyped
    · exact stored_schema hf
  rcases simplify_fixed hstored he with ⟨r, hfixed, -, hlimit, hsimple⟩
  rcases hsimple hdeep with ⟨hr, hagain⟩
  rw [hr]
  exact ⟨hfixed, hlimit, hagain⟩

/-- A catalog in which one field holds numbers and texts. -/
def mixedCatalog : Snowflake := ((Snowflake.empty "t").shred
    [("x", .obj [("a", .int 1)]), ("y", .obj [("a", .str "s"), ("b", .arr [.int 2])])]).2

/-- A comparison of such a field with a choice that one pass does not fold. -/
def mixedComparison : Expr :=
  not (binary .eq (field "a") (case [(no, field "c"), (int 1, no), (int 2, yes)] no))

/-- Simplifying a comparison of a field of two types. -/
theorem simplify_idempotent_mixed :
    mixedCatalog.Grown ∧ mixedComparison.Definite ∧ mixedComparison.choiceDepth < maxPasses - 1 ∧
      simplify mixedCatalog.schema (simplify mixedCatalog.schema mixedComparison) =
        simplify mixedCatalog.schema mixedComparison := by
  have hgrown : mixedCatalog.Grown := .shredded _ (.empty "t")
  have hdefinite : mixedComparison.Definite := by
    change beq _ _ = true
    simp only [mixedComparison, not, field, no, int, yes, beq, beqClauses]
    decide
  have hdeep : mixedComparison.choiceDepth < maxPasses - 1 := by decide +kernel
  exact ⟨hgrown, hdefinite, hdeep,
    (simplify_idempotent (Or.inr ⟨_, hgrown, rfl⟩) hdefinite hdeep).2.2⟩

section Limit

/-- A choice of constants that no rule but folding touches. -/
def constantChoice : Expr := case [(int 1, no), (int 2, yes)] no

/-- The same choice behind a condition that has to be false first. -/
def guarded (cond : Expr) : Expr := case [(cond, field "x"), (int 1, no), (int 2, yes)] no

/-- Choices nested in each other's conditions. -/
def nestedChoice : Nat → Expr
  | 0 => constantChoice
  | n + 1 => guarded (nestedChoice n)

theorem pass?_int (i : Int) : pass? .untyped (int i) = some (int i) :=
  pass?_of_normal (Normal.int i)

theorem pass?_no : pass? .untyped no = some no := pass?_of_normal Normal.no

theorem pass?_yes : pass? .untyped yes = some yes := pass?_of_normal Normal.yes

theorem pass?_constantChoice : pass? .untyped constantChoice = some no := by
  have hoperands : passOperands? .untyped constantChoice = some constantChoice := by
    simp only [constantChoice, passOperands?, List.mapM_cons, List.mapM_nil, pass?_int, pass?_no,
      pass?_yes]
    rfl
  -- all operands are constants, so the choice is folded
  rw [pass?_eq _ rfl, hoperands]
  rfl

/-- A pass over the condition is a pass over the choice behind it. -/
theorem passOperands?_guarded {cond simple : Expr} (h : pass? .untyped cond = some simple) :
    passOperands? .untyped (guarded cond) = some (guarded simple) := by
  have hfield : pass? .untyped (field "x") = some (field "x") := by
    rw [field, pass?]
    rfl
  simp only [guarded, passOperands?, List.mapM_cons, List.mapM_nil, h, hfield, pass?_int, pass?_no,
    pass?_yes]
  rfl

/-- A pass folds only the innermost of nested choices. -/
theorem pass?_nestedChoice (n : Nat) :
    pass? .untyped (nestedChoice (n + 1)) = some (nestedChoice n) := by
  induction n with
  | zero =>
    -- the condition becomes false, and its clause is dropped
    have hdiffer : ([(int 1, no), (int 2, yes)].all fun c => c.2 == no) = false := by
      simp only [List.all_cons, List.all_nil, BEq.beq, beq, Json.beq]
      decide
    have hreduce : reduceCase [(no, field "x"), (int 1, no), (int 2, yes)] no =
        .done constantChoice := by
      change (if ([(int 1, no), (int 2, yes)].all fun c => c.2 == no) then Reduct.done no
        else .done constantChoice) = _
      rw [hdiffer]
      rfl
    change pass? .untyped (guarded constantChoice) = _
    rw [pass?_eq _ rfl, passOperands?_guarded pass?_constantChoice, bind_some]
    change resolve .untyped (reduceCase [(no, field "x"), (int 1, no), (int 2, yes)] no) = _
    rw [hreduce]
    rfl
  | succ n ih =>
    -- the condition is still a choice, so the rules keep the clause
    have hopen : (nestedChoice n).isDecided = false := by cases n <;> rfl
    have hdiffer : (field "x" == no) = false := by simp only [field, BEq.beq, beq]
    have hshape : Shape .untyped (guarded (nestedChoice n)) := by
      refine ⟨Nat.le_add_left 2 1, ?_, ?_⟩
      · simp only [List.forall_mem_cons, List.not_mem_nil, false_imp_iff, implies_true, and_true]
        exact ⟨hopen, rfl, rfl⟩
      · simp only [List.all_cons, hdiffer, Bool.false_and]
    change pass? .untyped (guarded (nestedChoice (n + 1))) = _
    rw [pass?_eq _ rfl, passOperands?_guarded ih, bind_some, rewrite_of_shape hshape fun _ => ?_]
    · rfl
    · exact all_isConstant_eq_false ⟨field "x", by simp [guarded, children], rfl⟩

theorem nestedChoice_differ (n : Nat) : (nestedChoice n == nestedChoice (n + 1)) = false := by
  induction n with
  | zero =>
    change beq constantChoice (guarded constantChoice) = false
    simp only [constantChoice, guarded, beq, beqClauses, int, Bool.false_and]
  | succ n ih =>
    have ih : beq (nestedChoice n) (nestedChoice (n + 1)) = false := ih
    change beq (guarded (nestedChoice n)) (guarded (nestedChoice (n + 1))) = false
    simp only [guarded, beq, beqClauses, ih, Bool.false_and]

theorem definite_nestedChoice (n : Nat) : (nestedChoice n).Definite := by
  induction n with
  | zero =>
    change beq constantChoice constantChoice = true
    simp only [constantChoice, beq, beqClauses, int, no, yes]
    decide
  | succ n ih =>
    have ih : beq (nestedChoice n) (nestedChoice n) = true := ih
    change beq (guarded (nestedChoice n)) (guarded (nestedChoice n)) = true
    simp only [guarded, beq, beqClauses, ih, field, int, no, yes]
    decide

theorem settle?_nestedChoice (limit n : Nat) :
    settle? .untyped limit (nestedChoice (n + limit)) = some (nestedChoice n) := by
  induction limit with
  | zero => rfl
  | succ limit ih =>
    rw [← Nat.add_assoc, settle?, pass?_nestedChoice]
    exact (if_neg (by rw [nestedChoice_differ]; exact Bool.false_ne_true)).trans ih

/-- Some bound on the depth is needed: where choices are nested deeper than there are passes, the
    limit ends the loop. What is returned is no fixed point, and simplifying it changes it. -/
theorem simplify_not_idempotent :
    (nestedChoice maxPasses).Definite ∧
      pass? .untyped (simplify .untyped (nestedChoice maxPasses)) ≠
        some (simplify .untyped (nestedChoice maxPasses)) ∧
      simplify .untyped (simplify .untyped (nestedChoice maxPasses)) ≠
        simplify .untyped (nestedChoice maxPasses) := by
  have hcut : simplify .untyped (nestedChoice maxPasses) = constantChoice := by
    have hsettle := settle?_nestedChoice (maxPasses - 1) 0
    rw [Nat.zero_add] at hsettle
    rw [show maxPasses = maxPasses - 1 + 1 from rfl, simplify, pass?_nestedChoice, bind_some,
      hsettle]
    rfl
  have hdiffer : no ≠ constantChoice := fun h => Expr.noConfusion h
  have hagain : simplify .untyped constantChoice = no := by
    have hno : Normal .untyped 0 no := Normal.no
    rw [simplify, pass?_constantChoice, bind_some,
      settle?_of_fixed (pass?_of_normal hno) hno.definite]
    rfl
  rw [hcut, hagain, pass?_constantChoice]
  exact ⟨definite_nestedChoice _, fun h => hdiffer (some.inj h), hdiffer⟩

end Limit

end Snowbank.Expr
