import Snowbank.Proofs.Simplify.Terms

/-!
# Normal Forms

What an expression looks like that has nothing left to simplify, said node by
node and without mentioning the rules.

A pass does not always arrive there. When a choice of clauses loses a clause
whose condition turned out to be false, what is left may hold nothing but
constants, and it takes another pass to fold it. That may make a condition
further up false, and so on. So normal forms have a level: at level zero
nothing is left to do, and an expression of level `n + 1` may hold choices
whose parts are of level `n` and which have yet to be folded.

## Main definitions

* `Shape`: There is nothing to do at the node, whatever is beneath it.
* `Normal`: A normal form of a level.

## Theorems

* `rewrite_of_shape`: The rules keep a node of normal shape.
-/

namespace Snowbank.Expr

open Reduct

open Bool (false_eq_true noConfusion)

open List hiding set

/-- The terms that the rules for conjunctions and disjunctions leave. -/
structure Joined (op : Nary) (terms : List Expr) : Prop where
  two : 2 ≤ terms.length
  distinct : Distinct terms
  flat : ∀ t ∈ terms, t.isDecided = false ∧ t.isNary op = false
  consistent : clashes terms = false

/-- A negation of the expression is moved into it. -/
def absorbsNot : Expr → Bool
  | not _ | and _ | or _ | binary (.basicCompare _) _ _ => true
  | _ => false

/-- Values of one type are values of another. -/
def widens (source target : DataType) : Bool :=
  source == target || (target == .number && source == .integer)

/-- There is nothing to do at an operator on one operand. -/
def UnaryShape (x : Expr) : Unary → Prop
  | .not => x.absorbsNot = false ∧ countsWhenPresent x.dataType = false
  | .missing => (missingPlain x == unary .missing x)
  | .present => False
  | .first | .last => x.isMany
  | .length => True
  | .convert type => type ≠ .boolean ∧ x.isNary .coalesce = false ∧ widens x.dataType type = false
  | .isType type =>
    x.alternatives? = none ∧ ((x.dataType.isScalar = false ∧ x.dataType ≠ .nested) ∨
      (type = .integer ∧ x.dataType = .number))

/-- A member can be taken out of the operand right away. -/
def isOpenGet : Expr → Expr → Bool
  | nary .tuple _, const (.num _) => true
  | var _ _, const (.str _) => true
  | _, _ => false

/-- There is nothing to do at an operator on two operands. -/
def BinaryShape (a b : Expr) : Binary → Prop
  | .get => isOpenGet a b = false
  | .split | .basicEq | .basicCompare _ => True
  | _ => False

/-- There is nothing to do at an operator on any count of operands. -/
def NaryShape (terms : List Expr) : Nary → Prop
  | .and => Joined .and terms ∧ multiplies terms = false
  | .or => Joined .or terms
  | .coalesce => 2 ≤ terms.length ∧ Chosen terms ∧ ∀ t ∈ terms, t.isNary .coalesce = false
  | .min | .max =>
    Distinct terms ∧ (∀ t ∈ terms, t.isNull = false) ∧
      ∀ t, terms = [t] → t.dataType.isNumeric = false
  | .count => ∀ t ∈ terms, t.isNull = false
  | .tuple => True

/-- There is nothing to do at the node, whatever is beneath it. -/
def Shape (s : Schema) : Expr → Prop
  | const value => value.Definite
  | date seconds => (seconds == seconds)
  | var path type => bind s path type = var path type
  | offset _ | script _ | leaves _ => True
  | rows _ shift => shift ≠ 0
  | unary op x => UnaryShape x op
  | binary op a b => BinaryShape a b op
  | nary op terms => NaryShape terms op
  | when cond x y =>
    cond.isDecided = false ∧ (x == y) = false ∧
      (x.dataType == .boolean && y.dataType == .boolean) = false
  | case clauses other =>
    2 ≤ clauses.length ∧ (∀ c ∈ clauses, c.1.isDecided = false) ∧
      clauses.all (fun (_, x) => x == other) = false
  | member x set =>
    2 ≤ set.length ∧ (∀ v ∈ set, v.Definite ∧ v.isNull = false) ∧ x.alternatives? = none
  | matching _ _ => True
  | range _ _ => False
  | arith _ _ _ other => other.isNull
  | fold op terms _ other =>
    other.isNull ∧ (∀ t ∈ terms, isIdentity op t = false) ∧
      ∀ t, terms = [t] → t.dataType.isNumeric = false
  | concat terms _ other => other.isNull ∧ ∀ t ∈ terms, t.isNull = false
  | find _ _ _ _ | between _ _ _ _ _ => False
  | select _ | indexOf _ _ _ | substring _ _ _ => True

/-- The node is not to be folded into a constant. -/
def Open (e : Expr) : Prop := e.isFoldable → e.children.all isConstant = false

/-- A normal form of a level. Above level zero a choice of clauses may still
    be waiting to be folded. -/
inductive Normal (s : Schema) : Nat → Expr → Prop
  | node {n : Nat} {e : Expr} (level : e.isCase → n = 0) (shape : Shape s e)
      (stays : Open e) (below : ∀ c ∈ e.children, Normal s n c) : Normal s n e
  | late {n : Nat} {clauses : List (Expr × Expr)} {other : Expr}
      (shape : Shape s (case clauses other))
      (below : ∀ c ∈ (case clauses other).children, Normal s n c) :
      Normal s (n + 1) (case clauses other)

namespace Normal

variable {s : Schema} {n : Nat} {e : Expr}

theorem shape (h : Normal s n e) : Shape s e := by
  cases h with
  | node _ shape _ _ | late shape _ => exact shape

theorem isOpen (h : Normal s n e) (hcase : e.isCase = false) : Open e := by
  cases h with
  | node _ _ stays _ => exact stays
  | late _ _ => cases hcase

theorem succ (h : Normal s n e) : Normal s (n + 1) e := by
  induction h with
  | @node n e level shape stays below ih =>
    by_cases hcase : e.isCase
    · cases e with
      | case clauses other =>
        rw [level rfl] at below ⊢
        exact late shape below
      | _ => cases hcase
    · exact node (fun h => absurd h hcase) shape stays ih
  | late shape below ih => exact late shape ih

theorem child {c : Expr} (h : Normal s n e) (hc : c ∈ e.children) : Normal s n c := by
  cases h with
  | node _ _ _ below => exact below c hc
  | late _ below => exact (below c hc).succ

theorem ownDefinite_of_shape (h : Shape s e) : e.OwnDefinite := by
  cases e with
  | const | date => exact h
  | member x set => exact fun v hv => (h.2.1 v hv).1
  | _ => trivial

theorem definite (h : Normal s n e) : e.Definite := by
  induction h with
  | node _ shape _ _ ih => exact (definite_iff _).2 ⟨ownDefinite_of_shape shape, ih⟩
  | late shape _ ih => exact (definite_iff _).2 ⟨ownDefinite_of_shape shape, ih⟩

theorem ofConst {v : Json} (hv : v.Definite) : Normal s n (const v) :=
  node (fun h => noConfusion h) hv (fun h => noConfusion h) (forall_mem_nil _)

theorem yes : Normal s n Expr.yes := ofConst rfl

theorem no : Normal s n Expr.no := ofConst rfl

theorem null : Normal s n Expr.null := ofConst rfl

theorem int (i : Int) : Normal s n (Expr.int i) := ofConst (Json.definite_int i)

end Normal

section Rules

variable {terms : List Expr} {op : Nary} {x e : Expr} {s : Schema}

variable {a b other : Expr} {clauses : List (Expr × Expr)}

theorem any_isRefuted_eq_false (h : ∀ t ∈ terms, t.isDecided = false) :
    terms.any isRefuted = false := by
  rw [any_eq_false]
  intro t ht hrefuted
  have hopen := h t ht
  unfold isRefuted at hrefuted
  split at hrefuted
  · cases hopen
  · cases hopen
  · cases hrefuted

theorem any_isAffirmed_eq_false (h : ∀ t ∈ terms, t.isDecided = false) :
    terms.any isAffirmed = false := by
  rw [any_eq_false]
  intro t ht haffirmed
  have hopen := h t ht
  unfold isAffirmed at haffirmed
  split at haffirmed
  · cases hopen
  · cases haffirmed

theorem Joined.kept (h : Joined op terms) : (flattened op terms).foldl pushNew [] = terms := by
  rw [flattened_eq_self h.flat]
  exact @foldl_pushNew_eq [] terms h.distinct

theorem reduceAnd_of_joined (h : Joined .and terms)
    (hsmall : multiplies terms = false) : reduceAnd terms = .done (and terms) := by
  rw [reduceAnd, conjuncts?_eq, any_isRefuted_eq_false (fun t ht => (h.flat t ht).1), h.kept]
  simp only [false_eq_true, if_false, h.consistent]
  have htwo := h.two
  match terms, htwo with
  | a :: b :: rest, _ => simp [hsmall]

theorem reduceOr_of_joined (h : Joined .or terms) : reduceOr terms = or terms := by
  rw [reduceOr, disjuncts?_eq, any_isAffirmed_eq_false (fun t ht => (h.flat t ht).1), h.kept]
  simp only [false_eq_true, if_false, h.consistent]
  have htwo := h.two
  match terms, htwo with
  | a :: b :: rest, _ => rfl

theorem reduceNot_eq (hconst : x.isConstant = false) (h : x.absorbsNot = false) : reduceNot x =
      if countsWhenPresent x.dataType then .again (missingPlain x) else .done (not x) := by
  unfold reduceNot
  split
  · cases hconst
  · cases hconst
  · cases hconst
  · cases h
  · cases h
  · cases h
  · cases h
  · rfl

theorem reduceWhen_eq {cond y : Expr} (h : cond.isDecided = false) :
    reduceWhen cond x y = if x == y then .done x
      else if x.dataType == .boolean && y.dataType == .boolean then
        .again (or [and [cond, x], and [not cond, y]]) else .done (when cond x y) := by
  unfold reduceWhen
  split
  · cases h
  · cases h
  · cases h
  · rfl

theorem isNull_of_not_isConstant (h : e.isConstant = false) : e.isNull = false := by
  cases e with
  | const => cases h
  | _ => rfl

theorem reduceEq_eq (ha : a.isNull = false) (hb : b.isNull = false) (hdiffer : (a == b) = false) :
    reduceEq a b = if a.alternatives?.isSome || b.alternatives?.isSome then
        .again (or (and [missingPlain a, missingPlain b] :: pairings a b (binary .basicEq)))
      else if incompatible a.dataType b.dataType then .again (and [missingPlain a, missingPlain b])
      else .again (case [(missingPlain a, missingPlain b), (missingPlain b, no)]
          (binary .basicEq a b)) := by
  rw [reduceEq, ha, hb, hdiffer]
  rfl

/-- The clauses that are left are open and were there before, and so was the other value. -/
theorem liveClauses_spec {other last : Expr} {clauses kept : List (Expr × Expr)}
    (h : liveClauses other clauses = (kept, last)) :
    (∀ c ∈ kept, c ∈ clauses ∧ c.1.isDecided = false) ∧
      (last = other ∨ ∃ c ∈ clauses, last = c.2) := by
  fun_induction liveClauses other clauses generalizing kept last with
  | case1 =>
    cases h
    exact ⟨forall_mem_nil _, .inl rfl⟩
  | case2 x rest ih | case3 x rest ih =>
    obtain ⟨hkept, hlast⟩ := ih h
    refine ⟨fun c hc => ⟨mem_cons_of_mem _ (hkept c hc).1, (hkept c hc).2⟩, ?_⟩
    rcases hlast with hlast | ⟨c, hc, hlast⟩
    · exact .inl hlast
    · exact .inr ⟨c, mem_cons_of_mem _ hc, hlast⟩
  | case4 x rest =>
    cases h
    exact ⟨forall_mem_nil _, .inr ⟨_, mem_cons_self, rfl⟩⟩
  | case5 cond x rest hno hnull hyes kept' last' heq ih =>
    cases h
    obtain ⟨hkept, hlast⟩ := ih heq
    refine ⟨forall_mem_cons.2 ⟨⟨mem_cons_self, ?_⟩, fun c hc =>
      ⟨mem_cons_of_mem _ (hkept c hc).1, (hkept c hc).2⟩⟩, ?_⟩
    · exact isDecided_eq_false hyes hno hnull
    · rcases hlast with hlast | ⟨c, hc, hlast⟩
      · exact .inl hlast
      · exact .inr ⟨c, mem_cons_of_mem _ hc, hlast⟩

/-- So what holds of all clauses holds of those that are left. -/
theorem forall_liveClauses {P : Expr → Prop} {other : Expr} {clauses : List (Expr × Expr)}
    (h : ∀ c ∈ clauses, P c.1 ∧ P c.2) (ho : P other) :
    (∀ c ∈ (liveClauses other clauses).1, P c.1 ∧ P c.2) ∧ P (liveClauses other clauses).2 := by
  obtain ⟨hkept, hlast⟩ := liveClauses_spec (Prod.eta (liveClauses other clauses)).symm
  refine ⟨fun c hc => h c (hkept c hc).1, ?_⟩
  rcases hlast with hlast | ⟨c, hc, hlast⟩
  · rwa [hlast]
  · rw [hlast]
    exact (h c hc).2

theorem liveClauses_eq_self (other : Expr)
    (h : ∀ c ∈ clauses, c.1.isDecided = false) : liveClauses other clauses = (clauses, other) := by
  fun_induction liveClauses other clauses with
  | case1 => rfl
  | case2 x rest ih | case3 x rest ih | case4 x rest => exact noConfusion (h _ mem_cons_self)
  | case5 cond x rest _ _ _ kept last heq ih =>
    rw [ih (fun c hc => h c (.tail _ hc))] at heq
    cases heq
    rfl

theorem reduceCase_of_shape
    (h : Shape s (case clauses other)) : reduceCase clauses other = .done (case clauses other) := by
  obtain ⟨htwo, hopen, hdiffer⟩ := h
  unfold reduceCase
  rw [liveClauses_eq_self other hopen]
  simp only [hdiffer, false_eq_true, if_false]
  match clauses, htwo with
  | a :: b :: rest, _ => rfl

theorem filter_isNull_eq_self (h : ∀ t ∈ terms, t.isNull = false) :
    terms.filter (!·.isNull) = terms :=
  filter_eq_self.2 (fun t ht => by rw [h t ht]; rfl)

theorem reduceMember_of_shape {set : List Json}
    (h : Shape s (member x set)) : reduceMember x set = .done (member x set) := by
  obtain ⟨htwo, hvalues, hx⟩ := h
  have hnull : set.any Json.isNull = false := by
    rw [any_eq_false]
    intro v hv
    rw [(hvalues v hv).2]
    exact Bool.false_ne_true
  match set, htwo with
  | a :: b :: rest, _ =>
    unfold reduceMember
    simp [hnull, hx]

theorem reduceCoalesce_of_shape (h : NaryShape terms .coalesce) :
    reduceCoalesce terms = coalesce terms := by
  obtain ⟨htwo, hchosen, hflat⟩ := h
  have hspread : flatTerms terms = terms := by
    rw [flatTerms_eq]
    clear htwo hchosen
    induction terms with
    | nil => rfl
    | cons t rest ih =>
      rw [forall_mem_cons] at hflat
      rw [flatMap_cons, spread_of_isNary hflat.1, ih hflat.2, singleton_append]
  rw [reduceCoalesce, hspread, candidates_eq_self (by exact hchosen), nil_append]
  match terms, htwo with
  | a :: b :: rest, _ => rfl

theorem reduceUnary_of_shape {op : Unary} (hconst : x.isConstant = false)
    (h : UnaryShape x op) : reduceUnary op x = .done (unary op x) := by
  cases op with
  | not =>
    rw [reduceUnary, reduceNot_eq hconst h.1, h.2]
    rfl
  | missing => rw [reduceUnary]; exact if_pos h
  | present => exact h.elim
  | first | last => rw [reduceUnary]; exact congrArg done (if_pos h)
  | length => rfl
  | convert type =>
    obtain ⟨hbool, hflat, hwide⟩ := h
    have hwiden : (x.dataType == type || (type == .number && x.dataType == .integer)) = false :=
      hwide
    rw [reduceUnary]
    unfold reduceConvert convertOnce
    rw [if_neg (by simpa using hbool)]
    split
    · cases hflat
    · simp [hwiden]
  | isType type =>
    obtain ⟨halts, h⟩ := h
    rw [reduceUnary, reduceIsType, halts]
    rcases h with ⟨hscalar, hnested⟩ | ⟨rfl, htype⟩
    · simp [hscalar, hnested]
    · simp [htype, DataType.isScalar]

theorem reduceBinary_of_shape {op : Binary} (h : BinaryShape a b op) :
    reduceBinary op a b = .done (binary op a b) := by
  cases op with
  | get =>
    have hget : isOpenGet a b = false := h
    unfold reduceBinary
    dsimp only
    split
    · cases hget
    · cases hget
    · rfl
  | split | basicEq | basicCompare => rfl
  | _ => exact h.elim

theorem reduceExtreme_of_shape (hdistinct : Distinct terms)
    (hpresent : ∀ t ∈ terms, t.isNull = false)
    (hone : ∀ t, terms = [t] → t.dataType.isNumeric = false) :
    reduceExtreme op terms = nary op terms := by
  rw [reduceExtreme, distinctTerms, filter_isNull_eq_self hpresent,
    @foldl_pushNew_eq [] terms hdistinct, nil_append]
  split
  · rw [hone _ rfl]
    rfl
  · rfl

theorem reduceNary_of_shape (h : NaryShape terms op) :
    reduceNary op terms = .done (nary op terms) := by
  cases op with
  | and => exact reduceAnd_of_joined h.1 h.2
  | or => rw [reduceNary, reduceOr_of_joined h]
  | coalesce => rw [reduceNary, reduceCoalesce_of_shape h]
  | min | max => rw [reduceNary, reduceExtreme_of_shape h.1 h.2.1 h.2.2]
  | count => rw [reduceNary, filter_isNull_eq_self h]
  | tuple => rfl

theorem eq_null_of_isNull (h : e.isNull) : e = null := by
  unfold isNull at h
  split at h
  · rfl
  · cases h

theorem reduceFold_of_shape {op : Fold} {nulls : Bool} (hopen : terms ≠ [])
    (h : Shape s (fold op terms nulls other)) :
    reduceFold op terms nulls other = .done (fold op terms nulls other) := by
  obtain ⟨hother, hkeep, hone⟩ := h
  rw [eq_null_of_isNull hother]
  have hfilter : terms.filter (!isIdentity op ·) = terms :=
    filter_eq_self.2 (fun t ht => by rw [hkeep t ht]; rfl)
  rw [reduceFold, hfilter]
  match terms, hopen with
  | [t], _ =>
    dsimp only
    rw [hone t rfl]
    rfl
  | a :: b :: rest, _ => rfl

theorem rewrite_of_shape (h : Shape s e) (hopen : Open e) : e.rewrite = .done e := by
  have hstays : (e.isFoldable && e.children.all isConstant) = false := by
    by_cases hfold : e.isFoldable
    · rw [hopen hfold, Bool.and_false]
    · rw [Bool.not_eq_true] at hfold
      rw [hfold, Bool.false_and]
  rw [rewrite, hstays]
  simp only [false_eq_true, if_false]
  cases e with
  | unary op x =>
    have hx : x.isConstant = false := by
      have := hopen (by cases op <;> rfl)
      simpa [children] using this
    exact reduceUnary_of_shape hx h
  | binary op a b => exact reduceBinary_of_shape h
  | nary op terms => exact reduceNary_of_shape h
  | when cond x y =>
    obtain ⟨hcond, hdiffer, htypes⟩ := h
    rw [reduce, reduceWhen_eq hcond, hdiffer, htypes]
    rfl
  | case clauses other => exact reduceCase_of_shape h
  | member x set => exact reduceMember_of_shape h
  | range x bounds => exact h.elim
  | arith op a b other =>
    have hother : other.isNull := h
    rw [reduce, if_pos hother]
  | fold op terms nulls other =>
    refine reduceFold_of_shape ?_ h
    rintro rfl
    have hall := hopen rfl
    rw [eq_null_of_isNull h.1] at hall
    cases hall
  | concat terms separator other =>
    obtain ⟨hother, hterms⟩ := h
    rw [reduce, eq_null_of_isNull hother, filter_isNull_eq_self hterms]
    rfl
  | find text needle start other | between text opening closing start other => exact h.elim
  | _ => rfl

end Rules

end Snowbank.Expr
