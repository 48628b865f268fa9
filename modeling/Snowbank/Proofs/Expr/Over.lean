import Snowbank.Proofs.Simplify.Pass

/-!
# What Holds of All Nodes

The rules of simplifying build large expressions, but they build them from
constants, operators and the operands of a node. So what is asked of single
nodes, and holds of operators anyway, holds of the nodes of what comes out if it
held of those that went in. It may ask something of variables, say which paths
they read, or that no node is a script.

## Main definitions

* `Over`: The property holds of all nodes.
* `Inherited`: The property asks nothing of operators and constants.

## Theorems

* `over_iff`: It holds of the node and of all beneath its operands.
* `Over.simplify`: What holds of all nodes does so after simplifying.
-/

namespace Snowbank.Expr

open List Reduct

variable {clauses : List (Expr × Expr)} {set : List Json}

/-- The property holds of all nodes. -/
def Over (P : Expr → Prop) (e : Expr) : Prop := ∀ n ∈ e.nodes, P n

/-- The node refers to something outside of the expression. -/
def isReference : Expr → Bool
  | var _ _ | offset _ | leaves _ | rows _ _ | script _ | binary .get _ _ => true
  | _ => false

/-- The property asks nothing of operators and constants. A part of a field may become a variable,
    so if the property allows to ask for one, it allows all variables. -/
class Inherited (P : Expr → Prop) : Prop where
  operator : ∀ {e}, e.isReference = false → P e
  get : ∀ {a b}, P (binary .get a b) → (∀ a b, P (binary .get a b)) ∧ ∀ path type, P (var path type)

variable {P : Expr → Prop}

theorem over_iff (e : Expr) : e.Over P ↔ P e ∧ ∀ c ∈ e.children, c.Over P := forall_mem_nodes

theorem Over.child {e c : Expr} (h : e.Over P) (hc : c ∈ e.children) : c.Over P :=
  ((over_iff e).1 h).2 c hc

variable [Inherited P]

section

variable {x a b : Expr} {terms : List Expr} {other c : Expr}

variable {e d : Expr}

theorem over_operator (h : e.isReference = false) : e.Over P ↔ e.Each (Over P) :=
  ((over_iff e).trans (and_iff_right (Inherited.operator h))).trans forall_mem_children

@[simp] theorem over_const (v : Json) : (const v).Over P :=
  (over_operator rfl).2 trivial

@[simp] theorem over_unary {op : Unary} : (unary op x).Over P ↔ x.Over P :=
  over_operator rfl

@[simp] theorem over_binary {op : Binary} (hop : op ≠ .get) :
    (binary op a b).Over P ↔ a.Over P ∧ b.Over P := by
  have hown : (binary op a b).isReference = false := by
    cases op with
    | get => exact absurd rfl hop
    | _ => rfl
  exact over_operator hown

@[simp] theorem over_nary {op : Nary} : (nary op terms).Over P ↔ ∀ t ∈ terms, t.Over P :=
  over_operator rfl

@[simp] theorem over_when {cond y : Expr} :
    (when cond x y).Over P ↔ cond.Over P ∧ x.Over P ∧ y.Over P :=
  over_operator rfl

@[simp] theorem over_case :
    (case clauses other).Over P ↔ (∀ c ∈ clauses, c.1.Over P ∧ c.2.Over P) ∧ other.Over P :=
  over_operator rfl

@[simp] theorem over_member : (member x set).Over P ↔ x.Over P :=
  over_operator rfl

@[simp] theorem over_range {bounds : List (Inequality × Expr)} :
    (range x bounds).Over P ↔ x.Over P ∧ ∀ b ∈ bounds, b.2.Over P :=
  over_operator rfl

@[simp] theorem over_arith {op : Arith} :
    (arith op a b other).Over P ↔ a.Over P ∧ b.Over P ∧ other.Over P :=
  over_operator rfl

@[simp] theorem over_fold {op : Fold} {nulls : Bool} :
    (fold op terms nulls other).Over P ↔ (∀ t ∈ terms, t.Over P) ∧ other.Over P :=
  over_operator rfl

@[simp] theorem over_concat {separator : String} :
    (concat terms separator other).Over P ↔ (∀ t ∈ terms, t.Over P) ∧ other.Over P :=
  over_operator rfl

@[simp] theorem over_find : (find a b c d).Over P ↔ a.Over P ∧ b.Over P ∧ c.Over P ∧ d.Over P :=
  over_operator rfl

@[simp] theorem over_between :
    (between a b c d e).Over P ↔ a.Over P ∧ b.Over P ∧ c.Over P ∧ d.Over P ∧ e.Over P :=
  over_operator rfl

@[simp] theorem over_indexOf : (indexOf a b c).Over P ↔ a.Over P ∧ b.Over P ∧ c.Over P :=
  over_operator rfl

@[simp] theorem over_substring : (substring a b c).Over P ↔ a.Over P ∧ b.Over P ∧ c.Over P :=
  over_operator rfl

end

section

variable {onBetween : Expr → Expr}

variable {e : Expr}

theorem over_missingCase {other : Expr} (hconds : ∀ c ∈ clauses, c.1.Over P)
    (hvalues : ∀ c ∈ clauses, (missingWith onBetween c.2).Over P) (hother : other.Over P) :
    (missingCase onBetween clauses other).Over P := by
  induction clauses with
  | nil => rwa [missingCase]
  | cons c rest ih =>
    rw [forall_mem_cons] at hconds hvalues
    rw [missingCase]
    simp [hconds.1, hvalues.1, ih hconds.2 hvalues.2]

theorem Over.missingWith (hbetween : ∀ e : Expr, e.Over P → (onBetween e).Over P)
    (h : e.Over P) : (missingWith onBetween e).Over P := by
  induction e using induction_children with
  | step e ih =>
    have hkids : ∀ c ∈ e.children, (Expr.missingWith onBetween c).Over P :=
      fun c hc => ih c hc (h.child hc)
    cases e with
    | var path type => rw [Expr.missingWith]; split <;> simp [h]
    | unary op x =>
      have hx := hkids x (by simp [children])
      unfold Expr.missingWith Unary.missing
      split
      all_goals first | exact over_const _ | exact hx
    | binary op a b =>
      have ha := hkids a (by simp [children])
      have hb := hkids b (by simp [children])
      cases op <;> simp_all [Expr.missingWith]
    | nary op terms =>
      rw [children] at hkids
      cases op with
      | coalesce | min | max => simpa [Expr.missingWith, missingAll_eq_map] using hkids
      | and | or | count | tuple => simp [Expr.missingWith]
    | case clauses other =>
      rw [forall_mem_children] at hkids
      rw [over_case] at h
      exact over_missingCase (fun c hc => (h.1 c hc).1) (fun c hc => (hkids.1 c hc).2) hkids.2
    | fold op terms nulls other =>
      simp only [children, forall_mem_append, forall_mem_singleton] at hkids
      rw [Expr.missingWith]
      split <;> simpa [missingAll_eq_map] using hkids
    | concat terms separator other =>
      simp only [children, forall_mem_append, forall_mem_singleton] at hkids
      simpa [Expr.missingWith, missingAll_eq_map] using hkids
    | arith op a b other =>
      simp only [children, forall_mem_cons] at hkids
      rw [Expr.missingWith]
      split <;> simp_all [int]
    | between text opening closing start other => exact hbetween _ h
    | const | date | offset | leaves | rows | script | member | matching | range | select
    | indexOf => simp [Expr.missingWith, h]
    | when | find | substring =>
      simp only [children, forall_mem_cons] at hkids
      simp_all [Expr.missingWith, notFound, int]

theorem Over.missingPlain (h : e.Over P) : e.missingPlain.Over P :=
  h.missingWith fun _ h => over_unary.2 h

theorem Over.presentPlain (h : e.Over P) : e.presentPlain.Over P := over_unary.2 h.missingPlain

end

section Rules

variable {op : Nary} {clauses : List (Expr × Expr)} {e : Expr}

/-- The expression that a rule gives, in simple form or not. -/
def Reduct.expr : Reduct → Expr
  | .done e | .again e => e

variable {terms seen : List Expr} {a b c x y other : Expr}

omit [Inherited P] in
theorem over_filter (p : Expr → Bool) (h : ∀ t ∈ terms, t.Over P) :
    ∀ t ∈ terms.filter p, t.Over P :=
  fun t ht => h t (mem_of_mem_filter ht)

omit [Inherited P] in
theorem over_foldl_pushNew (hseen : ∀ t ∈ seen, t.Over P)
    (h : ∀ t ∈ terms, t.Over P) : ∀ t ∈ terms.foldl pushNew seen, t.Over P := by
  intro t ht
  exact (mem_foldl_pushNew ht).elim (hseen t) (h t)

theorem over_spread (h : x.Over P) : ∀ t ∈ x.spread op, t.Over P := by
  cases x with
  | nary op' inner =>
    rw [spread]
    split
    · exact over_nary.1 h
    · exact forall_mem_singleton.2 h
  | _ => exact forall_mem_singleton.2 h

theorem over_flattened (h : ∀ t ∈ terms, t.Over P) :
    ∀ t ∈ (flattened op terms).foldl pushNew [], t.Over P := by
  refine over_foldl_pushNew (forall_mem_nil _) (fun t ht => ?_)
  obtain ⟨e, he, -, hmem⟩ := mem_flattened ht
  exact over_spread (h e he) t hmem

theorem over_multiplyOut {chosen : List (List Expr)} (h : ∀ t ∈ terms, t.Over P)
    (hchosen : ∀ choice ∈ chosen, ∀ t ∈ choice, t.Over P) :
    ∀ choice ∈ multiplyOut terms chosen, ∀ t ∈ choice, t.Over P := by
  fun_induction multiplyOut terms chosen with
  | case1 => exact hchosen
  | case2 chosen alts rest ih =>
    rw [forall_mem_cons, over_nary] at h
    refine ih h.2 ?_
    simp only [forall_mem_flatMap, forall_mem_map, forall_mem_append, forall_mem_singleton]
    exact fun choice hchoice alt halt => ⟨hchosen choice hchoice, h.1 alt halt⟩
  | case3 e rest chosen _ ih =>
    rw [forall_mem_cons] at h
    refine ih h.2 ?_
    simp only [forall_mem_map, forall_mem_append, forall_mem_singleton]
    exact fun choice hchoice => ⟨hchosen choice hchoice, h.1⟩

theorem over_reduceAnd (h : ∀ t ∈ terms, t.Over P) : (reduceAnd terms).expr.Over P := by
  have hflat : ∀ t ∈ (flattened .and terms).foldl pushNew [], t.Over P := over_flattened h
  rw [reduceAnd, conjuncts?_eq]
  generalize (flattened .and terms).foldl pushNew [] = simple at hflat
  split
  · exact over_const _
  next heq =>
    split at heq <;> cases heq
    split
    · exact over_const _
    · split
      · exact over_const _
      · exact hflat _ mem_cons_self
      · split
        · rw [expr, over_nary, forall_mem_map]
          intro choice hchoice
          refine over_nary.2 (over_multiplyOut hflat ?_ choice hchoice)
          simp
        · exact over_nary.2 hflat

theorem over_reduceOr (h : ∀ t ∈ terms, t.Over P) : (reduceOr terms).Over P := by
  have hflat : ∀ t ∈ (flattened .or terms).foldl pushNew [], t.Over P := over_flattened h
  rw [reduceOr, disjuncts?_eq]
  generalize (flattened .or terms).foldl pushNew [] = simple at hflat
  split
  · exact over_const _
  next heq =>
    split at heq <;> cases heq
    split
    · exact over_const _
    · split
      · exact over_const _
      · exact hflat _ mem_cons_self
      · exact over_nary.2 hflat

theorem over_reduceNot (h : x.Over P) : (reduceNot x).expr.Over P := by
  unfold reduceNot
  split
  · exact over_const _
  · exact over_const _
  · exact over_const _
  · exact over_unary.1 h
  · simpa [expr] using h
  · simpa [expr] using h
  · simpa [expr] using h
  · split
    · exact h.missingPlain
    · exact over_unary.2 h

theorem over_reduceWhen (hc : c.Over P) (hx : x.Over P) (hy : y.Over P) :
    (reduceWhen c x y).expr.Over P := by
  unfold reduceWhen
  split
  · exact hx
  · exact hy
  · exact hy
  · split
    · exact hx
    · split
      · simp [expr, hc, hx, hy]
      · simp [expr, hc, hx, hy]

theorem over_reduceCase (h : ∀ c ∈ clauses, c.1.Over P ∧ c.2.Over P) (hother : other.Over P) :
    (reduceCase clauses other).expr.Over P := by
  obtain ⟨hlive, hother⟩ := forall_liveClauses h hother
  unfold reduceCase
  dsimp only
  split
  · exact hother
  · split
    next heq =>
      rw [heq, forall_mem_singleton] at hlive
      exact over_when.2 ⟨hlive.1, hlive.2, hother⟩
    · exact over_case.2 ⟨hlive, hother⟩

theorem over_alternatives (h : x.Over P) (hterms : x.alternatives? = some terms) :
    ∀ t ∈ terms, t.Over P := by
  unfold alternatives? at hterms
  split at hterms
  · split at hterms <;> cases hterms
    exact over_nary.1 h
  · cases hterms

theorem over_branches (h : x.Over P) : ∀ t ∈ x.branches, t.Over P := by
  unfold branches
  cases hterms : x.alternatives? with
  | none => exact forall_mem_singleton.2 h
  | some terms => exact over_alternatives h hterms

theorem over_pairings {compare : Expr → Expr → Expr}
    (hcompare : ∀ x y : Expr, x.Over P → y.Over P → (compare x y).Over P)
    (ha : a.Over P) (hb : b.Over P) : ∀ t ∈ pairings a b compare, t.Over P := by
  intro t ht
  obtain ⟨x, hx, ht⟩ := mem_flatMap.1 ht
  obtain ⟨y, hy, ht⟩ := mem_filterMap.1 ht
  have hx := over_branches ha x hx
  have hy := over_branches hb y hy
  split at ht <;> cases ht
  simp [hx.presentPlain, hy.presentPlain, hcompare x y hx hy]

theorem over_reduceEq (ha : a.Over P) (hb : b.Over P) : (reduceEq a b).expr.Over P := by
  have hpairs : ∀ t ∈ pairings a b (binary .basicEq), t.Over P :=
    over_pairings (fun _ _ hx hy => (over_binary (by simp)).2 ⟨hx, hy⟩) ha hb
  unfold reduceEq
  split
  · exact hb.missingPlain
  · split
    · exact ha.missingPlain
    · split
      · exact over_const _
      · split
        · simpa [expr, ha.missingPlain, hb.missingPlain] using hpairs
        · split
          · simp [expr, ha.missingPlain, hb.missingPlain]
          · simp [expr, ha.missingPlain, hb.missingPlain, ha, hb]

theorem over_reduceMember (h : x.Over P) : (reduceMember x set).expr.Over P := by
  unfold reduceMember
  split
  · exact over_const _
  · split
    · simp [expr, h.missingPlain, h]
    · split
      · simp [expr, h]
      · split
        next hterms => simpa [expr] using over_alternatives h hterms
        · simpa [expr] using h

theorem over_reduceCoalesce (h : ∀ t ∈ terms, t.Over P) : (reduceCoalesce terms).Over P := by
  have hchosen : ∀ t ∈ candidates (flatTerms terms) [], t.Over P := by
    intro t ht
    rcases mem_candidates ht with ht | ht
    · cases ht
    · rw [flatTerms_eq] at ht
      obtain ⟨e, he, ht⟩ := mem_flatMap.1 ht
      exact over_spread (h e he) t ht
  unfold reduceCoalesce
  generalize candidates (flatTerms terms) [] = chosen at hchosen
  split
  · exact over_const _
  · exact hchosen _ mem_cons_self
  · exact over_nary.2 hchosen

theorem over_reduceConvert (type : DataType) (h : x.Over P) :
    (reduceConvert type x).expr.Over P := by
  unfold reduceConvert
  split
  · split
    · exact h
    · exact h.presentPlain
  · split
    · simpa [expr] using h
    · rw [convertOnce]
      split
      · exact h
      · exact over_unary.2 h

theorem over_reduceIsType (type : DataType) (h : x.Over P) : (reduceIsType type x).expr.Over P := by
  unfold reduceIsType
  split
  next hterms => simpa [expr] using over_alternatives h hterms
  · dsimp only
    split
    · exact over_unary.2 h
    · split
      · exact h.presentPlain
      · split
        · exact over_unary.2 h
        · exact over_const _

theorem over_reduceUnary (op : Unary) (h : x.Over P) : (reduceUnary op x).expr.Over P := by
  cases op with
  | not => exact over_reduceNot h
  | missing =>
    unfold reduceUnary
    dsimp only
    split
    · exact over_unary.2 h
    · exact h.missingPlain
  | present => simpa [reduceUnary, expr] using h
  | first | last =>
    unfold reduceUnary
    rw [expr]
    split
    · exact over_unary.2 h
    · exact h
  | length => exact over_unary.2 h
  | convert type => exact over_reduceConvert type h
  | isType type => exact over_reduceIsType type h

theorem over_lowerSide (op : Side) (ha : a.Over P) (hb : b.Over P) : (lowerSide op a b).Over P := by
  cases op <;> simp [lowerSide, int, ha, hb, ha.missingPlain, hb.missingPlain]

theorem over_lowerAffix (ha : a.Over P) (hb : b.Over P) (hc : c.Over P) :
    (lowerAffix a b c).Over P := by
  simp [lowerAffix, ha.presentPlain, hb.missingPlain, hb, hc]

theorem over_lowerBetween (h : (between a b c x other).Over P) :
    (lowerBetween a b c x other).Over P := by
  rw [over_between] at h
  unfold lowerBetween
  dsimp only
  split <;> split <;> simp [int, h, h.1.missingPlain]

theorem Over.reduceBinary {op : Binary} (h : (binary op a b).Over P) :
    (reduceBinary op a b).expr.Over P := by
  have ha : a.Over P := h.child mem_cons_self
  have hb : b.Over P := h.child (mem_cons_of_mem _ mem_cons_self)
  cases op with
  | eq => exact over_reduceEq ha hb
  | ne => simp [Expr.reduceBinary, expr, ha, hb]
  | compare o =>
    unfold Expr.reduceBinary
    dsimp only
    split
    · exact over_const _
    · exact over_nary.2
        (over_pairings (fun _ _ hx hy => (over_binary (by simp)).2 ⟨hx, hy⟩) ha hb)
  | side o => exact over_lowerSide o ha hb
  | startsWith | endsWith => exact over_lowerAffix ha hb (by simp [int, ha, hb])
  | get =>
    unfold Expr.reduceBinary
    dsimp only
    split
    next tuple n =>
      cases hitem : n.toNat?.bind fun i => tuple[i]? with
      | none => exact over_const _
      | some item =>
        obtain ⟨i, -, hi⟩ := Option.bind_eq_some_iff.1 hitem
        exact over_nary.1 ha item (mem_of_getElem? hi)
    · refine (over_iff _).2 ⟨(Inherited.get ((over_iff _).1 h).1).2 _ _, forall_mem_nil _⟩
    · exact h
  | split | basicEq | basicCompare => exact h

theorem over_reduceExtreme (op : Nary) (h : ∀ t ∈ terms, t.Over P) :
    (reduceExtreme op terms).Over P := by
  have hdistinct : ∀ t ∈ distinctTerms terms, t.Over P :=
    over_foldl_pushNew (forall_mem_nil _) (over_filter _ h)
  unfold reduceExtreme
  generalize distinctTerms terms = simple at hdistinct
  split
  · split
    · exact hdistinct _ mem_cons_self
    · exact over_nary.2 hdistinct
  · exact over_nary.2 hdistinct

theorem over_reduceNary (op : Nary) (h : ∀ t ∈ terms, t.Over P) :
    (reduceNary op terms).expr.Over P := by
  cases op with
  | and => exact over_reduceAnd h
  | or => exact over_reduceOr h
  | coalesce => exact over_reduceCoalesce h
  | min => exact over_reduceExtreme .min h
  | max => exact over_reduceExtreme .max h
  | count => exact over_nary.2 (over_filter _ h)
  | tuple => exact over_nary.2 h

theorem over_reduceFold (op : Fold) (nulls : Bool) (h : ∀ t ∈ terms, t.Over P)
    (hother : other.Over P) : (reduceFold op terms nulls other).expr.Over P := by
  have hkept := over_filter (!isIdentity op ·) h
  unfold reduceFold
  generalize terms.filter (!isIdentity op ·) = kept at hkept
  split
  · simpa [expr, hother] using h
  · split
    · exact over_const _
    · rw [expr]
      split
      · exact hkept _ mem_cons_self
      · simpa using hkept
    · simpa [expr] using hkept

theorem Over.reduce (h : e.Over P) : e.reduce.expr.Over P := by
  cases e with
  | unary op x => exact over_reduceUnary op (over_unary.1 h)
  | binary op a b => exact h.reduceBinary
  | nary op terms => exact over_reduceNary op (over_nary.1 h)
  | when cond x y =>
    rw [over_when] at h
    exact over_reduceWhen h.1 h.2.1 h.2.2
  | case clauses other =>
    rw [over_case] at h
    exact over_reduceCase h.1 h.2
  | member x set => exact over_reduceMember (over_member.1 h)
  | range x bounds =>
    rw [over_range] at h
    rw [Expr.reduce, expr, over_nary, forall_mem_map]
    exact fun b hb => (over_binary (by simp)).2 ⟨h.1, h.2 b hb⟩
  | arith op a b other =>
    rw [Expr.reduce]
    split
    · exact h
    · simpa [expr, and_assoc] using h
  | fold op terms nulls other =>
    rw [over_fold] at h
    exact over_reduceFold op nulls h.1 h.2
  | concat terms separator other =>
    rw [over_concat] at h
    rw [Expr.reduce]
    split
    · simpa [expr] using h
    · exact over_concat.2 ⟨over_filter _ h.1, over_const _⟩
  | find text needle start other =>
    rw [over_find] at h
    simp [Expr.reduce, expr, notFound, int, h, h.1.missingPlain, h.2.1.missingPlain]
  | between text opening closing start other => exact over_lowerBetween h
  | _ => exact h

theorem Over.rewrite (h : e.Over P) : e.rewrite.expr.Over P := by
  unfold Expr.rewrite
  split
  · exact over_const _
  · exact h.reduce

end Rules

section

variable {e : Expr}

/-- The property goes over to what a schema has for a variable. -/
structure Binds (s : Schema) (P : Expr → Prop) : Prop where
  column : ∀ {path type}, P (var path type) → (bind s path type).Over P
  rows : ∀ {path}, P (rows path 0) → (bind s path .object).Over P

variable {s : Schema}

theorem over_bind {path : Path} (h : ∀ type, P (var path type)) (s : Schema) (type : DataType) :
    (bind s path type).Over P := by
  have hvar : ∀ type, (var path type).Over P :=
    fun type => (over_iff _).2 ⟨h type, forall_mem_nil _⟩
  unfold bind
  split
  · exact hvar _
  · split
    · exact hvar _
    · split
      · exact hvar _
      · exact over_const _
    · split
      · exact hvar _
      · split
        · exact over_nary.2 (forall_mem_map.2 fun type _ => hvar type)
        · exact hvar _

theorem Over.mapChildren {f : Expr → Expr} (h : e.Over P)
    (hf : ∀ c ∈ e.children, (f c).Over P) : (e.mapChildren f).Over P := by
  rw [over_iff, children_mapChildren, forall_mem_map]
  refine ⟨?_, hf⟩
  have hown := ((over_iff e).1 h).1
  cases e with
  | binary op a b =>
    cases op with
    | get => exact (Inherited.get hown).1 _ _
    | _ => exact Inherited.operator rfl
  | const | date | var | offset | leaves | rows | script => exact hown
  | _ => exact Inherited.operator rfl

/-- A pass keeps the property. -/
theorem Over.pass? (hs : Binds s P) {r : Expr} (h : e.Over P) (hr : pass? s e = some r) :
    r.Over P := by
  -- by induction on how the pass runs, the operands first and then the rules
  refine pass?_induction (P := fun e r => e.Over P → r.Over P)
    (fun path type h => hs.column ((over_iff _).1 h).1)
    (fun path h => hs.rows ((over_iff _).1 h).1) ?_ hr h
  intro f e r _ hkids hdone hagain h
  have hrules := (h.mapChildren fun c hc => hkids c hc (h.child hc)).rewrite
  cases hrewrite : (e.mapChildren f).rewrite with
  | done x =>
    rw [hrewrite] at hrules
    rw [hdone x hrewrite]
    exact hrules
  | again x =>
    rw [hrewrite] at hrules
    exact hagain x hrewrite hrules

theorem Over.simplify (hs : Binds s P) (h : e.Over P) : (e.simplify s).Over P := by
  exact simplify_induction (R := fun e r => e.Over P → r.Over P) (fun _ h => h)
    (fun hem hmr h => hmr (hem h)) (fun hr h => h.pass? hs hr) e h

end

section

variable {e : Expr} {f : Expr → Expr}

theorem mapLeavesOf_eq_map (f : Expr → Expr) (terms : List Expr) :
    mapLeavesOf f terms = terms.map (mapLeaves f) := by
  induction terms with
  | nil => rw [mapLeavesOf, map_nil]
  | cons t rest ih => rw [mapLeavesOf, ih, map_cons]

theorem mapClauseLeaves_eq_map (f : Expr → Expr) (clauses : List (Expr × Expr)) :
    mapClauseLeaves f clauses = clauses.map fun c => (mapLeaves f c.1, mapLeaves f c.2) := by
  induction clauses with
  | nil => rw [mapClauseLeaves, map_nil]
  | cons c rest ih => rw [mapClauseLeaves, ih, map_cons]

theorem mapBoundLeaves_eq_map (f : Expr → Expr) (bounds : List (Inequality × Expr)) :
    mapBoundLeaves f bounds = bounds.map fun b => (b.1, mapLeaves f b.2) := by
  induction bounds with
  | nil => rw [mapBoundLeaves, map_nil]
  | cons b rest ih => rw [mapBoundLeaves, ih, map_cons]

theorem mapFieldLeaves_eq_map (f : Expr → Expr) (fields : List (String × Expr)) :
    mapFieldLeaves f fields = fields.map fun n => (n.1, mapLeaves f n.2) := by
  induction fields with
  | nil => rw [mapFieldLeaves, map_nil]
  | cons n rest ih => rw [mapFieldLeaves, ih, map_cons]

theorem mapLeaves_eq (h : e.isLeaf = false) : e.mapLeaves f = e.mapChildren (mapLeaves f) := by
  cases e with
  | const | date | var | offset | script | leaves | rows => cases h
  | _ => simp [mapLeaves, mapChildren, mapLeavesOf_eq_map, mapClauseLeaves_eq_map,
    mapBoundLeaves_eq_map, mapFieldLeaves_eq_map]

theorem Over.mapLeaves {Q : Expr → Prop} (hf : ∀ e, e.children = [] → Q e → (f e).Over P)
    (hget : ∀ {a b}, Q (binary .get a b) → ∀ a b, P (binary .get a b))
    (h : e.Over Q) : (e.mapLeaves f).Over P := by
  induction e using induction_children with
  | step e ih =>
    have hown := ((over_iff e).1 h).1
    cases hleaf : e.isLeaf with
    | true =>
      cases e with
      | const | date | var | offset | script | leaves | rows => exact hf _ rfl hown
      | _ => cases hleaf
    | false =>
      rw [mapLeaves_eq hleaf, over_iff, children_mapChildren, forall_mem_map]
      refine ⟨?_, fun c hc => ih c hc (h.child hc)⟩
      cases e with
      | binary op a b =>
        cases op with
        | get => exact hget hown _ _
        | _ => exact Inherited.operator rfl
      | const | date | var | offset | script | leaves | rows => cases hleaf
      | _ => exact Inherited.operator rfl

end

end Snowbank.Expr
