import Snowbank.Proofs.Filter.Rules
import Snowbank.Proofs.Simplify.Rules

/-!
# Simplifying Preserves Filters

Simplifying takes a filter apart into tests of typed columns, and on every
document that agrees with the schema the result is true exactly when the filter
is.

A pass keeps an invariant that says more than that. Between passes there are
basic comparisons, which have no value where an operand has none, and turning
one round under a negation changes its value there. What each step keeps is
that the expression leaves no more open than the filter does, and a filter
leaves nothing open.

## Main definitions

* `IsFilter`: Truth values, tests of fields, and operators on truth values.
* `Passed`: What a pass does.

## Theorems

* `pass?_passed`: A pass keeps the invariant.
* `isTruthy_simplify`: Simplifying preserves filters.
* `not_isTruthy_simplify_root`: It need not where the root is read.
-/

namespace Snowbank.Expr

open List

variable {s : Schema} {row : Json}

theorem Settled.rewrite_eq {x : Expr} (h : Settled s row x) : x.rewrite = .done x := by
  cases h with
  | const | column => rfl
  | columns stored several =>
    have hnormal := @normal_columns s 0 _ _ (Bool.not_eq_true _ ▸ stored.notRoot) several
      stored.nodup (fun t ht => bind_column stored ht)
    exact rewrite_of_shape hnormal.shape (hnormal.isOpen rfl)

/-- Tests of operands keep their truth when the operands are settled. -/
theorem Atom.settled_bound {e : Expr} (h : Atom row (Unknown s row) (Operand s row) e) :
    Atom row (Settled s row) (Settled s row) (e.mapChildren (bound s)) ∧
      ∀ b, holds row b e = holds row b (e.mapChildren (bound s)) := by
  cases h with
  | @probe op x probes operand =>
    obtain ⟨hsettled, hvalue⟩ := operand.1.settled_bound
    refine ⟨.probe probes hsettled, fun b => ?_⟩
    -- a test of one operand is judged by its value
    have hplain : ∀ y, (unary op y).isPlain := by
      intro y
      cases op with
      | not => cases probes
      | _ => rfl
    rw [mapChildren, holds_of_isPlain (hplain x), holds_of_isPlain (hplain _)]
    exact congrArg (fun v => (op.apply v).isTruthy) hvalue.symm
  | @member x set operand leaves =>
    obtain ⟨hsettled, hvalue⟩ := operand.settled_bound
    refine ⟨.member hsettled leaves, fun b => ?_⟩
    rw [holds_of_isPlain rfl, holds_of_isPlain rfl]
    exact congrArg (fun v => Json.isIn v set) hvalue.symm
  | @range x bounds operand limits =>
    obtain ⟨hsettled, hvalue⟩ := operand.settled_bound
    refine ⟨.range hsettled (fun limit hlimit => ?_), fun b => ?_⟩
    · obtain ⟨limit, hmem, rfl⟩ := mem_map.1 hlimit
      exact (limits limit hmem).settled_bound.1
    · rw [mapChildren, holds_of_isPlain rfl, holds_of_isPlain rfl, evaluateColumns_range,
        evaluateColumns_range, isTruthy_bool, isTruthy_bool, hvalue, all_map, Bool.eq_iff_iff,
        all_eq_true, all_eq_true]
      refine forall₂_congr fun limit hmem => ?_
      rw [Function.comp, (limits limit hmem).settled_bound.2]
  | @test op x y tests left right =>
    obtain ⟨hleft, hx⟩ := left.settled_bound
    obtain ⟨hright, hy⟩ := right.settled_bound
    refine ⟨.test tests hleft hright, fun b => ?_⟩
    have hplain : ∀ u v, (binary op u v).isPlain := by
      intro u v
      cases op with
      | basicCompare => cases tests
      | _ => rfl
    rw [mapChildren, holds_of_isPlain (hplain x y), holds_of_isPlain (hplain _ _)]
    exact congrArg₂ (fun u v => (op.apply u v).isTruthy) hx.symm hy.symm
  -- whether operands are in order depends on their values alone
  | @ordered op x y left right order =>
    obtain ⟨hleft, hx⟩ := left.settled_bound
    obtain ⟨hright, hy⟩ := right.settled_bound
    refine ⟨.ordered hleft hright ?_, fun b => ?_⟩
    · rw [InOrder, hx, hy]
      exact order
    · rw [mapChildren, holds_basicCompare, holds_basicCompare, hx, hy]

section

variable {e r : Expr}

/-- What a pass does: it settles operands, and what it makes of a test is one
    that leaves no more open. -/
def Passed (s : Schema) (row : Json) (e r : Expr) : Prop :=
  (Operand s row e → r = bound s e) ∧ (Test s row e → Test s row r ∧ Refines row e r)

theorem passed_var (path : Path) (type : DataType) :
    Passed s row (var path type) (bind s path type) := by
  refine ⟨fun _ => rfl, fun h => ?_⟩
  cases h with
  | flag stored =>
    rw [bind_column stored mem_cons_self]
    exact ⟨.flag stored, .refl _⟩
  | field stored =>
    have hvalue : (bind s path .object).evaluateColumns row = _ :=
      (Operand.field stored).settled_bound.2
    rw [bind_field stored] at hvalue ⊢
    refine ⟨.flag stored, .of_eq fun b => ?_⟩
    rw [holds_of_isPlain rfl, holds_of_isPlain rfl, hvalue]
    rfl
  | atom h => cases h

theorem Atom.operand (h : Atom row (Unknown s row) (Operand s row) e) :
    ∀ c ∈ e.children, Operand s row c := by
  cases h with
  | probe probes operand => exact forall_mem_singleton.2 operand.1
  | member operand leaves => exact forall_mem_singleton.2 operand
  | range operand limits => exact forall_mem_cons.2 ⟨operand, forall_mem_map.2 limits⟩
  | test tests left right | ordered left right order =>
    exact forall_mem_cons.2 ⟨left, forall_mem_singleton.2 right⟩

/-- A pass keeps the invariant at a node: the operands first, and then the rules. -/
theorem passed_node {f : Expr → Expr} (hbound : e.isBound = false)
    (hkids : ∀ c ∈ e.children, Passed s row c (f c))
    (hdone : ∀ x, (e.mapChildren f).rewrite = .done x → r = x)
    (hagain : ∀ x, (e.mapChildren f).rewrite = .again x → Passed s row x r) : Passed s row e r := by
  constructor
  · intro he
    cases he with
    | field => cases hbound
    | settled he =>
      have hsame : e.mapChildren f = e := by
        cases he with
        | const => rfl
        | column => cases hbound
        | @columns path types stored several =>
          refine congrArg coalesce ((map_congr_left fun x hx => ?_).trans (map_id _))
          obtain ⟨t, mem, rfl⟩ := mem_map.1 hx
          have hsettled : Settled s row (var path t) := .column stored mem
          rw [(hkids _ hx).1 (.settled hsettled), hsettled.bound_eq, id]
      rw [hsame, he.rewrite_eq] at hdone
      rw [he.bound_eq]
      exact hdone e rfl
  · intro he
    have hkeeps : Refines row e (e.mapChildren f) ∧
        Keeps s row (e.mapChildren f) (e.mapChildren f).rewrite := by
      by_cases hlogical : e.isLogical
      · have hjudges := judges_holds s row
        rcases hjudges.mapChildren hlogical he (fun c hc hchild =>
          ⟨((hkids c hc).2 hchild).1, ((hkids c hc).2 hchild).2.narrows⟩) with
          ⟨htest, hnarrows, hsame⟩
        exact ⟨.of_narrows hnarrows, keeps_of_narrowed (hjudges.rewrite hsame htest)⟩
      · cases he with
        | const truth => exact ⟨.refl _, .const truth, .refl _⟩
        | field | flag => cases hbound
        | atom h =>
          -- every operand is settled, and the node is otherwise the same
          rw [mapChildren_congr fun c hc => (hkids c hc).1 (h.operand c hc)]
          exact ⟨.of_eq h.settled_bound.2, h.settled_bound.1.keeps_rewrite⟩
        | _ => exact absurd rfl hlogical
    cases hrewrite : (e.mapChildren f).rewrite with
    | done x =>
      rw [hrewrite] at hkeeps
      rw [hdone x hrewrite]
      exact ⟨hkeeps.2.1, hkeeps.1.trans hkeeps.2.2⟩
    | again x =>
      rw [hrewrite] at hkeeps
      obtain ⟨htest, hnext⟩ := (hagain x hrewrite).2 hkeeps.2.1
      exact ⟨htest, hkeeps.1.trans (hkeeps.2.2.trans hnext)⟩

theorem passed_rows (path : Path) : Passed s row (rows path 0) (bind s path .object) := by
  refine ⟨fun h => ?_, fun h => ?_⟩
  · cases h with
    | settled h => cases h
  · cases h with
    | atom h => cases h

theorem pass?_passed (h : pass? s e = some r) : Passed s row e r :=
  pass?_induction passed_var passed_rows (fun _ _ _ => passed_node) h

theorem Test.refines_simplify (h : Test s row e) : Refines row e (simplify s e) := by
  have hpassed : Test s row e → Test s row (simplify s e) ∧ Refines row e (simplify s e) := by
    refine simplify_induction (R := fun e r => Test s row e → Test s row r ∧ Refines row e r)
      (fun e h => ⟨h, .refl e⟩) (fun hem hmr h => ?_) (fun hr => (pass?_passed hr).2) e
    have hm := hem h
    exact ⟨(hmr hm.1).1, hm.2.trans (hmr hm.1).2⟩
  exact (hpassed h).2

end

section

/-- What a filter compares: fields, and null and single values. -/
inductive IsOperand : Expr → Prop
  | field (path : Path) : IsOperand (field path)
  | const {v : Json} (leaf : v.IsLeaf) : IsOperand (const v)

/-- Filters: truth values, tests of fields, and the operators on truth values. -/
inductive IsFilter (s : Schema) : Expr → Prop
  | const {v : Json} (truth : v.isTruthValue) : IsFilter s (const v)
  /-- A field that is stored as truth values only. -/
  | field {path : Path} (boolean : s.typesAt path = some [.boolean]) : IsFilter s (field path)
  | missing (path : Path) : IsFilter s (unary .missing (field path))
  | present (path : Path) : IsFilter s (unary .present (field path))
  | isType (type : DataType) (path : Path) : IsFilter s (unary (.isType type) (field path))
  | member (path : Path) {set : List Json} (leaves : ∀ v ∈ set, v.IsLeaf) :
      IsFilter s (member (field path) set)
  | range (path : Path) {bounds : List (Inequality × Expr)} (limits : ∀ b ∈ bounds, IsOperand b.2) :
      IsFilter s (range (field path) bounds)
  | eq {x y : Expr} (left : IsOperand x) (right : IsOperand y) : IsFilter s (binary .eq x y)
  | ne {x y : Expr} (left : IsOperand x) (right : IsOperand y) : IsFilter s (binary .ne x y)
  | compare (op : Inequality) {x y : Expr} (left : IsOperand x) (right : IsOperand y) :
      IsFilter s (binary (.compare op) x y)
  | not {x : Expr} (h : IsFilter s x) : IsFilter s (not x)
  | and {terms : List Expr} (h : ∀ t ∈ terms, IsFilter s t) : IsFilter s (and terms)
  | or {terms : List Expr} (h : ∀ t ∈ terms, IsFilter s t) : IsFilter s (or terms)
  | when {cond x y : Expr} (hc : IsFilter s cond) (hx : IsFilter s x) (hy : IsFilter s y) :
      IsFilter s (when cond x y)
  | case {clauses : List (Expr × Expr)} {other : Expr}
      (hc : ∀ c ∈ clauses, IsFilter s c.1) (hx : ∀ c ∈ clauses, IsFilter s c.2)
      (ho : IsFilter s other) : IsFilter s (case clauses other)

variable {e : Expr}

theorem mem_vars_field (path : Path) : path ∈ (field path).vars := mem_vars.2 (.inl rfl)

theorem IsOperand.operand (h : IsOperand e)
    (hstored : ∀ path ∈ e.vars, ∃ types, StoredAt s row path types) :
    Operand s row e := by
  cases h with
  | field path =>
    obtain ⟨types, stored⟩ := hstored path (mem_vars_field path)
    exact .field stored
  | const leaf => exact .settled (.const leaf)

theorem IsFilter.test (h : IsFilter s e)
    (hstored : ∀ path ∈ e.vars, ∃ types, StoredAt s row path types) : Test s row e := by
  have hbelow : ∀ {e c : Expr}, (∀ path ∈ e.vars, ∃ types, StoredAt s row path types) →
      c ∈ e.children → ∀ path ∈ c.vars, ∃ types, StoredAt s row path types :=
    fun hall hc path hpath => hall path (mem_vars.2 (.inr ⟨_, hc, hpath⟩))
  have hfield : ∀ {path : Path}, (∀ p ∈ (Expr.field path).vars, ∃ types, StoredAt s row p types) →
      Operand s row (Expr.field path) := fun hall => (IsOperand.field _).operand hall
  induction h with
  | const truth => exact .const truth
  | @field path boolean =>
    obtain ⟨types, stored⟩ := hstored path (mem_vars_field path)
    have htypes := Option.some.inj (stored.typesAt.symm.trans boolean)
    subst htypes
    exact .field stored
  | missing | present | isType =>
    exact .atom (.probe rfl ⟨hfield (hbelow hstored mem_cons_self), rfl⟩)
  | member path leaves => exact .atom (.member (hfield (hbelow hstored mem_cons_self)) leaves)
  | range path limits =>
    exact .atom (.range (hfield (hbelow hstored mem_cons_self)) (fun b hb =>
      (limits b hb).operand (hbelow hstored (mem_cons_of_mem _ (mem_map.2 ⟨b, hb, rfl⟩)))))
  | eq left right | ne left right | compare op left right =>
    exact .atom (.test rfl (left.operand (hbelow hstored mem_cons_self))
      (right.operand (hbelow hstored (mem_cons_of_mem _ mem_cons_self))))
  | not _ ih => exact .not (ih (hbelow hstored mem_cons_self))
  | and _ ih => exact .and (fun t ht => ih t ht (hbelow hstored ht))
  | or _ ih => exact .or (fun t ht => ih t ht (hbelow hstored ht))
  | @when cond x y _ _ _ ihc ihx ihy =>
    have hkids : ∀ c ∈ [cond, x, y], ∀ path ∈ c.vars, ∃ types, StoredAt s row path types :=
      fun c hc => hbelow hstored hc
    simp only [forall_mem_cons] at hkids
    exact .when (ihc hkids.1) (ihx hkids.2.1) (ihy hkids.2.2.1)
  | @case clauses other _ _ _ ihc ihx iho =>
    have hkids : ∀ c ∈ (Expr.case clauses other).children, ∀ path ∈ c.vars,
        ∃ types, StoredAt s row path types := fun c hc => hbelow hstored hc
    rw [forall_mem_children] at hkids
    exact .case (fun c hc => ihc c hc (hkids.1 c hc).1) (fun c hc => ihx c hc (hkids.1 c hc).2)
      (iho hkids.2)

theorem IsFilter.child {c : Expr} (h : IsFilter s e) (hc : c ∈ e.children) :
    IsFilter s c ∨ IsOperand c := by
  cases h with
  | const | field => cases hc
  | missing | present | isType | member =>
    rw [mem_singleton.1 hc]
    exact .inr (.field _)
  | range path limits =>
    rcases mem_cons.1 hc with rfl | hc
    · exact .inr (.field _)
    · obtain ⟨b, hb, rfl⟩ := mem_map.1 hc
      exact .inr (limits b hb)
  | eq left right | ne left right | compare op left right =>
    rcases mem_pair.1 hc with rfl | rfl
    · exact .inr left
    · exact .inr right
  | not h =>
    rw [mem_singleton.1 hc]
    exact .inl h
  | and h | or h => exact .inl (h c hc)
  | @when cond x y hcond hx hy =>
    have hall : ∀ c ∈ [cond, x, y], IsFilter s c := by
      simp only [forall_mem_cons]
      exact ⟨hcond, hx, hy, forall_mem_nil _⟩
    exact .inl (hall c hc)
  | @case clauses other hcond hx ho =>
    have hall : ∀ c ∈ (Expr.case clauses other).children, IsFilter s c :=
      forall_mem_children.2 ⟨fun c hc => ⟨hcond c hc, hx c hc⟩, ho⟩
    exact .inl (hall c hc)

theorem IsFilter.evaluateColumns_eq (h : IsFilter s e) :
    e.evaluateColumns row = e.evaluate row := by
  have hboth : IsFilter s e ∨ IsOperand e → e.evaluateColumns row = e.evaluate row := by
    clear h
    induction e using induction_children with
    | step e ih =>
      intro h
      by_cases hfold : e.isFoldable
      · refine evaluateWith_congr hfold (fun c hc => ih c hc ?_)
        rcases h with h | h
        · exact h.child hc
        · cases h <;> cases hfold
      · rcases h with h | h
        · cases h with
          | const | field => rfl
          | _ => exact absurd rfl hfold
        · cases h <;> rfl
  exact hboth (.inl h)

theorem holds_case_guess {clauses : List (Expr × Expr)} {other : Expr}
    (h : ∀ c ∈ clauses, holds row true c.1 = holds row false c.1 ∧
      holds row true c.2 = holds row false c.2)
    (ho : holds row true other = holds row false other) :
    holds row true (case clauses other) = holds row false (case clauses other) := by
  induction clauses with
  | nil => rw [holds_case_nil, holds_case_nil, ho]
  | cons c rest ih =>
    rw [forall_mem_cons] at h
    rw [holds_case_cons, holds_case_cons, holds_when, holds_when, Bool.not_true, Bool.not_false,
      h.1.1, h.1.2, ih h.2]

/-- A filter leaves nothing open: it holds no basic comparison. -/
theorem IsFilter.holds_eq (h : IsFilter s e) (b : Bool) :
    holds row b e = (e.evaluateColumns row).isTruthy := by
  -- it does not matter what is guessed, and the truth lies in between
  have hguess : holds row true e = holds row false e := by
    induction h with
    | not _ ih => rw [holds_not, holds_not, Bool.not_true, Bool.not_false, ih]
    | and _ ih =>
      rw [holds_and, holds_and, Bool.eq_iff_iff, all_eq_true, all_eq_true]
      exact forall₂_congr fun t ht => by rw [ih t ht]
    | or _ ih =>
      rw [holds_or, holds_or]
      exact any_congr_mem ih
    | when _ _ _ ihc ihx ihy =>
      rw [holds_when, holds_when, Bool.not_true, Bool.not_false, ihc, ihx, ihy]
    | case _ _ _ ihc ihx iho => exact holds_case_guess (fun c hc => ⟨ihc c hc, ihx c hc⟩) iho
    | _ => rfl
  have hbetween := bounded row e
  have hsame : ∀ b, holds row b e = holds row false e := by
    intro b
    cases b with
    | true => exact hguess
    | false => rfl
  rw [hsame, Bool.eq_iff_iff]
  exact ⟨hbetween.1, fun htruth => hguess ▸ hbetween.2 htruth⟩

/-- Simplifying preserves filters: on a document that agrees with the schema at every variable, the
    simplified filter reads its typed columns and is true exactly when the filter is. -/
theorem isTruthy_simplify {f : Expr} (hf : f.IsFilter s)
    (hstored : ∀ path ∈ f.vars, ∃ types, StoredAt s row path types) :
    ((simplify s f).evaluateColumns row).isTruthy = (f.evaluate row).isTruthy := by
  have hrefines := (hf.test hstored).refines_simplify
  rw [← hf.evaluateColumns_eq]
  exact hrefines.truthy hf.holds_eq

/-- Documents in which one field holds numbers and texts. -/
def mixedDocuments : Schema := ((Snowflake.empty "t").shred
    [("x", .obj [("a", .int 7), ("b", .bool true)]), ("y", .obj [("a", .str "s")])]).2.schema

/-- Such a field is not above five, and a truth value or a field that no
    document has is tested too. -/
def mixedFilter : Expr := and [not (binary (.compare .gt) (field "a") (int 5)),
    or [field "b", unary .missing (field "c")]]

/-- A text is not above five. -/
theorem isTruthy_simplify_mixed :
    mixedFilter.IsFilter mixedDocuments ∧
      (∀ path ∈ mixedFilter.vars,
        ∃ types, StoredAt mixedDocuments (.obj [("a", .str "s")]) path types) ∧
      ((simplify mixedDocuments mixedFilter).evaluateColumns (.obj [("a", .str "s")])).isTruthy =
        true := by
  have hfilter : mixedFilter.IsFilter mixedDocuments := by
    refine .and (List.forall_mem_cons.mpr ⟨.not (.compare _ (.field _) (.const rfl)),
      List.forall_mem_singleton.mpr (.or (List.forall_mem_cons.mpr ⟨.field ?_,
        List.forall_mem_singleton.mpr (.missing _)⟩))⟩)
    decide +kernel
  have hvars : mixedFilter.vars = ["a", "b", "c"] := rfl
  have ha : (Json.obj [("a", .str "s")]).lookup "a" = .str "s" := rfl
  have hb : (Json.obj [("a", .str "s")]).lookup "b" = .null := rfl
  have hc : (Json.obj [("a", .str "s")]).lookup "c" = .null := rfl
  have hstored : ∀ path ∈ mixedFilter.vars,
      ∃ types, StoredAt mixedDocuments (.obj [("a", .str "s")]) path types := by
    rw [hvars]
    simp only [List.forall_mem_cons]
    refine ⟨⟨[.number, .string],
      ⟨?_, by decide, by decide, fun h => absurd h (List.cons_ne_nil _ _), ?_, ?_⟩,
        by decide⟩,
      ⟨[.boolean], ⟨?_, by decide, by decide, fun h => absurd h (List.cons_ne_nil _ _), ?_, ?_⟩,
        by decide⟩,
      ⟨[], ⟨?_, by decide, by decide, fun _ => ?_, ?_, ?_⟩, by decide⟩, List.forall_mem_nil _⟩
    · decide +kernel
    · rw [ha]
      trivial
    · rw [ha]
      decide
    · decide +kernel
    · rw [hb]
      trivial
    · rw [hb]
      decide
    · decide +kernel
    · decide +kernel
    · rw [hc]
      trivial
    · rw [hc]
      decide
  refine ⟨hfilter, hstored, ?_⟩
  rw [isTruthy_simplify hfilter hstored]
  rfl

/-- The whole document counts as there, even where it is null. -/
theorem simplify_missing_root (s : Schema) : simplify s (unary .missing (field .root)) = no := by
  have hoperands : passOperands? s (unary .missing (field .root)) =
      some (unary .missing (field .root)) := by
    refine passOperands?_eq_self (forall_mem_singleton.2 ?_)
    rw [field, pass?, bind, if_pos (beq_self_eq_true _)]
  have hplain : missingPlain (field .root) = no := by
    rw [field, missingPlain, missingWith, if_pos (beq_self_eq_true _)]
  have hne : (no == unary .missing (field .root)) = false := by
    change beq _ _ = false
    rw [beq] <;> simp
  have hrewrite : (unary .missing (field .root)).rewrite = .again no := by
    change reduceUnary .missing (field .root) = _
    rw [reduceUnary, hplain, hne]
    rfl
  have hfirst : pass? s (unary .missing (field .root)) = some no := by
    rw [pass?_eq s rfl, hoperands, Option.bind_some, hrewrite, resolve, pass?_const]
  have hlast : settle? s (maxPasses - 1) no = some no := by
    have hsame : (no == no) := by
      change beq _ _
      rw [beq]
      rfl
    rw [maxPasses, settle?, pass?_const, Option.bind_eq_bind, Option.bind_some, if_pos hsame]
    rfl
  rw [simplify, hfirst, Option.bind_some, hlast]
  rfl

/-- So a filter may read no variable at the root: where nothing is stored and
    the document is null, this one is true and what it becomes is not. -/
theorem not_isTruthy_simplify_root :
    (unary .missing (field Path.root)).IsFilter (Snowflake.empty "t").schema ∧
      (∀ path ∈ (unary .missing (field Path.root)).vars,
        ∃ types, AgreesAt (Snowflake.empty "t").schema .null path types) ∧
      ((unary .missing (field Path.root)).evaluate .null).isTruthy = true ∧
      ((simplify (Snowflake.empty "t").schema
        (unary .missing (field Path.root))).evaluateColumns .null).isTruthy = false := by
  have hvars : (unary .missing (field Path.root)).vars = [Path.root] := rfl
  have hvalue : Json.null.lookup Path.root = .null := rfl
  refine ⟨.missing _, ?_, rfl, ?_⟩
  · rw [hvars, List.forall_mem_singleton]
    refine ⟨[], ⟨?_, by decide, by decide, fun _ => ?_, ?_, ?_⟩⟩
    · decide +kernel
    · decide +kernel
    · rw [hvalue]
      trivial
    · rw [hvalue]
      exact Or.inl rfl
  · rw [simplify_missing_root]
    rfl

end

end Snowbank.Expr
