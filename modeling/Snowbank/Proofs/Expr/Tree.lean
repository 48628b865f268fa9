import Snowbank.Proofs.Json.Definite

/-!
# Expressions as Trees

A statement about an expression may be proved from the same statement about its
operands, and an expression equals itself when its operands and its own data do.

Equality of trees is weaker than identity, since zero equals minus zero, and
it is not reflexive, since a NaN does not equal itself. Only the second
matters here: everything below is about expressions that equal themselves.

## Main definitions

* `Definite`: The expression equals itself: it holds no NaN.
* `choiceDepth`: How deep choices are nested.

## Theorems

* `induction_children`: Induction over the operands of expressions.
* `definite_iff`: Definite are the operands and the node's own data.
-/

namespace Snowbank.Expr

open Bool (and_eq_true)

open List hiding set

variable {clauses : List (Expr × Expr)} {e c : Expr} {P : Expr → Prop} {f : Expr → Expr}
variable {x e : Expr} {row row' : Json} {read read' : Path → DataType → Json}

theorem sizeOf_clause
    (h : x ∈ clauses.flatMap (fun (c, v) => [c, v])) : sizeOf x < sizeOf clauses := by
  obtain ⟨⟨c, v⟩, hmem, h⟩ := mem_flatMap.1 h
  have hlt := sizeOf_lt_of_mem hmem
  simp only [mem_cons, not_mem_nil, or_false] at h
  rcases h with rfl | rfl <;> simp only [Prod.mk.sizeOf_spec] at hlt <;> omega

theorem sizeOf_child (h : c ∈ e.children) : sizeOf c < sizeOf e := by
  have hsnd : ∀ {α : Type} [SizeOf α] {fields : List (α × Expr)} {x : Expr},
      x ∈ fields.map Prod.snd → sizeOf x < sizeOf fields := by
    intro α _ fields x hx
    obtain ⟨⟨n, v⟩, hmem, rfl⟩ := mem_map.1 hx
    have hlt := sizeOf_lt_of_mem hmem
    exact Nat.lt_of_le_of_lt (Nat.le_add_left _ _) hlt
  cases e with
  | const | date | var | offset | script | leaves | rows => simp [children] at h
  | nary op terms =>
    rw [children] at h
    have hlt := sizeOf_lt_of_mem h
    simp only [nary.sizeOf_spec]
    omega
  | case clauses other =>
    simp only [case.sizeOf_spec]
    rcases mem_append.1 h with h | h
    · have hlt := sizeOf_clause h
      omega
    · rw [mem_singleton.1 h]
      omega
  | range x bounds =>
    simp only [range.sizeOf_spec]
    rcases mem_cons.1 h with rfl | h
    · omega
    · have hlt := hsnd h
      omega
  | select fields =>
    have hlt := hsnd h
    simp only [select.sizeOf_spec]
    omega
  | fold op terms nulls other | concat terms separator other =>
    simp only [fold.sizeOf_spec, concat.sizeOf_spec]
    rcases mem_append.1 h with h | h
    · have hlt := sizeOf_lt_of_mem h
      omega
    · rw [mem_singleton.1 h]
      omega
  | _ =>
    simp only [children, mem_cons, not_mem_nil, or_false] at h
    grind [unary.sizeOf_spec, binary.sizeOf_spec, when.sizeOf_spec, member.sizeOf_spec,
      matching.sizeOf_spec, arith.sizeOf_spec, find.sizeOf_spec, between.sizeOf_spec,
      indexOf.sizeOf_spec, substring.sizeOf_spec]

theorem induction_children (step : ∀ e, (∀ c ∈ e.children, P c) → P e) (e : Expr) : P e :=
  step e fun c hc =>
    have := sizeOf_child hc
    induction_children step c
termination_by sizeOf e

/-- The node is a choice of clauses. -/
def isCase : Expr → Bool
  | case _ _ => true
  | _ => false

/-- The property holds of every operand. -/
@[reducible] def Each (P : Expr → Prop) : Expr → Prop
  | unary _ x | member x _ | matching x _ => P x
  | binary _ a b => P a ∧ P b
  | when a b c | arith _ a b c | indexOf a b c | substring a b c => P a ∧ P b ∧ P c
  | find a b c d => P a ∧ P b ∧ P c ∧ P d
  | between a b c d e => P a ∧ P b ∧ P c ∧ P d ∧ P e
  | nary _ terms => ∀ t ∈ terms, P t
  | fold _ terms _ other | concat terms _ other => (∀ t ∈ terms, P t) ∧ P other
  | case clauses other => (∀ c ∈ clauses, P c.1 ∧ P c.2) ∧ P other
  | range x bounds => P x ∧ ∀ b ∈ bounds, P b.2
  | select fields => ∀ f ∈ fields, P f.2
  | _ => True

theorem forall_mem_children : (∀ c ∈ e.children, P c) ↔ e.Each P := by
  cases e with
  | case | range | select =>
    simp only [children, Each, forall_mem_append, forall_mem_singleton, forall_mem_flatMap,
      forall_mem_cons, forall_mem_map]
  | _ => simp [children, Each, or_imp, forall_and]

theorem children_mapChildren (f : Expr → Expr) (e : Expr) :
    (e.mapChildren f).children = e.children.map f := by
  cases e with
  | case clauses other => simp [children, mapChildren, map_flatMap, flatMap_map]
  | _ => simp [children, mapChildren]

theorem mapChildren_congr {g : Expr → Expr} (h : ∀ c ∈ e.children, f c = g c) :
    e.mapChildren f = e.mapChildren g := by
  cases e with
  | nary op terms => exact congrArg (nary op) (map_congr_left h)
  | case clauses other =>
    rw [forall_mem_children, Each] at h
    refine congrArg₂ case (map_congr_left fun c hc => ?_) h.2
    exact congrArg₂ Prod.mk (h.1 c hc).1 (h.1 c hc).2
  | range x bounds =>
    simp only [children, forall_mem_cons, forall_mem_map] at h
    exact congrArg₂ range h.1 (map_congr_left fun b hb => congrArg (Prod.mk b.1) (h.2 b hb))
  | select fields =>
    simp only [children, forall_mem_map] at h
    exact congrArg select (map_congr_left fun f hf => congrArg (Prod.mk f.1) (h f hf))
  | fold op terms nulls other | concat terms separator other =>
    simp only [children, forall_mem_append, forall_mem_singleton] at h
    rw [mapChildren, mapChildren, map_congr_left h.1, h.2]
  | const | date | var | offset | script | leaves | rows => rfl
  | _ =>
    simp only [children, forall_mem_cons] at h
    simp only [mapChildren, h]

theorem mapChildren_eq_self (h : ∀ c ∈ e.children, f c = c) : e.mapChildren f = e := by
  rw [mapChildren_congr h]
  cases e <;> simp [mapChildren]

/-- The node is a choice of clauses, or simplifying makes one of it. -/
def isChoice : Expr → Bool
  | case _ _ | member _ _ | binary .eq _ _ | binary .ne _ _ => true
  | _ => false

/-- The number of choices on the way down that has most of them. -/
def choiceDepth (e : Expr) : Nat :=
  (e.children.attach.map fun c => choiceDepth c.1).foldr max 0 + e.isChoice.toNat
termination_by sizeOf e
decreasing_by exact sizeOf_child c.2

theorem choiceDepth_child (h : c ∈ e.children) :
    c.choiceDepth + e.isChoice.toNat ≤ e.choiceDepth := by
  have hle : ∀ (l : List Nat), ∀ n ∈ l, n ≤ l.foldr max 0 := by
    intro l
    induction l with
    | nil => exact forall_mem_nil _
    | cons m rest ih =>
      intro n hn
      rcases mem_cons.1 hn with rfl | hn
      · exact Nat.le_max_left _ _
      · exact Nat.le_trans (ih n hn) (Nat.le_max_right _ _)
  rw [choiceDepth.eq_def e]
  refine Nat.add_le_add_right (hle _ _ ?_) _
  exact mem_map.2 ⟨⟨c, h⟩, mem_attach _ _, rfl⟩

theorem isChoice_le_choiceDepth (e : Expr) : e.isChoice.toNat ≤ e.choiceDepth := by
  rw [choiceDepth]
  exact Nat.le_add_left _ _

/-- The expression equals itself, which is to say that it holds no NaN. -/
def Definite (e : Expr) : Prop := (e == e)

/-- What a node holds besides its operands equals itself. -/
def OwnDefinite : Expr → Prop
  | const value => value.Definite
  | date seconds => (seconds == seconds)
  | member _ set => ∀ v ∈ set, v.Definite
  | _ => True

theorem beqList_self_iff (xs : List Expr) : beqList xs xs ↔ ∀ x ∈ xs, x.Definite := by
  induction xs with
  | nil => simp [beqList]
  | cons x rest ih =>
    rw [beqList, and_eq_true, ih, forall_mem_cons]
    rfl

theorem beqClauses_self_iff (clauses : List (Expr × Expr)) : beqClauses clauses clauses ↔
      ∀ x ∈ clauses.flatMap (fun (c, v) => [c, v]), x.Definite := by
  induction clauses with
  | nil => simp [beqClauses]
  | cons clause rest ih =>
    rw [beqClauses, and_eq_true, and_eq_true, ih]
    simp only [flatMap_cons, forall_mem_append, forall_mem_cons,
      not_mem_nil, false_imp_iff, implies_true, and_true]
    rfl

theorem beqBounds_self_iff (bounds : List (Inequality × Expr)) :
    beqBounds bounds bounds ↔ ∀ x ∈ bounds.map Prod.snd, x.Definite := by
  induction bounds with
  | nil => simp [beqBounds]
  | cons bound rest ih =>
    rw [beqBounds, and_eq_true, and_eq_true, ih, beq_self_eq_true]
    simp only [true_and, map_cons, forall_mem_cons]
    rfl

theorem beqFields_self_iff (fields : List (String × Expr)) :
    beqFields fields fields ↔ ∀ x ∈ fields.map Prod.snd, x.Definite := by
  induction fields with
  | nil => simp [beqFields]
  | cons field rest ih =>
    rw [beqFields, and_eq_true, and_eq_true, ih, beq_self_eq_true]
    simp only [true_and, map_cons, forall_mem_cons]
    rfl

theorem beq_values_self_iff (set : List Json) : (set == set) ↔ ∀ v ∈ set, v.Definite := by
  induction set with
  | nil => simp
  | cons v rest ih =>
    rw [cons_beq_cons, and_eq_true, ih, forall_mem_cons]
    rfl

theorem definite_iff (e : Expr) : e.Definite ↔ e.OwnDefinite ∧ ∀ c ∈ e.children, c.Definite := by
  have hbeq : ∀ x : Expr, beq x x ↔ x.Definite := fun _ => Iff.rfl
  rw [← hbeq]
  cases e with
  | const | date => simp [beq, OwnDefinite, children, Json.Definite]
  | member x set =>
    simp only [beq, OwnDefinite, children, and_eq_true, hbeq, beq_values_self_iff,
      forall_mem_singleton]
    exact And.comm
  | _ =>
    simp [beq, OwnDefinite, children, hbeq, beqList_self_iff, beqClauses_self_iff,
      beqBounds_self_iff, beqFields_self_iff, or_imp, forall_and, and_assoc]

theorem definite_const {v : Json} (h : v.Definite) : (const v).Definite :=
  (definite_iff _).2 ⟨h, forall_mem_nil _⟩

theorem missingAll_eq_map (onBetween : Expr → Expr) (terms : List Expr) :
    missingAll onBetween terms = terms.map (missingWith onBetween) := by
  induction terms with
  | nil => rfl
  | cons x rest ih => rw [missingAll, ih, map_cons]

section

variable (read : Path → DataType → Json) (row : Json)

theorem evaluateAll_eq_map (terms : List Expr) :
    evaluateAll read row terms = terms.map (evaluateWith read row) := by
  induction terms with
  | nil => rfl
  | cons x rest ih => rw [evaluateAll, ih, map_cons]

theorem evaluateCase_mem (clauses : List (Expr × Expr)) (other : Json) :
    evaluateCase read row clauses other = other ∨
      ∃ clause ∈ clauses, evaluateCase read row clauses other = evaluateWith read row clause.2 := by
  induction clauses with
  | nil => exact .inl rfl
  | cons clause rest ih =>
    rw [evaluateCase]
    split
    · exact .inr ⟨clause, mem_cons_self, rfl⟩
    · rcases ih with h | ⟨c, hc, h⟩
      · exact .inl h
      · exact .inr ⟨c, mem_cons_of_mem _ hc, h⟩

theorem mem_evaluateFields {fields : List (String × Expr)} {f : String × Json}
    (h : f ∈ evaluateFields read row fields) :
    ∃ x ∈ fields.map Prod.snd, f.2 = evaluateWith read row x := by
  induction fields with
  | nil => cases h
  | cons field rest ih =>
    have hrest : f ∈ evaluateFields read row rest →
        ∃ x ∈ (field :: rest).map Prod.snd, f.2 = evaluateWith read row x := by
      intro h
      obtain ⟨x, hx, hf⟩ := ih h
      exact ⟨x, mem_cons_of_mem _ hx, hf⟩
    rw [evaluateFields] at h
    split at h
    · exact hrest h
    · rcases mem_cons.1 h with rfl | h
      · exact ⟨field.2, mem_cons_self, rfl⟩
      · exact hrest h

/-- A definite expression has definite values on definite documents. -/
theorem definite_evaluateWith (hread : ∀ path type, (read path type).Definite)
    (hrow : row.Definite) (he : e.Definite) : (evaluateWith read row e).Definite := by
  induction e using induction_children with
  | step e ih =>
    rw [definite_iff] at he
    have hkids : ∀ c ∈ e.children, (evaluateWith read row c).Definite :=
      fun c hc => ih c hc (he.2 c hc)
    have hall : ∀ {terms : List Expr}, (∀ t ∈ terms, (evaluateWith read row t).Definite) →
        ∀ v ∈ evaluateAll read row terms, v.Definite := by
      intro terms ht v hv
      rw [evaluateAll_eq_map] at hv
      obtain ⟨t, hmem, rfl⟩ := mem_map.1 hv
      exact ht t hmem
    cases e with
    | const value => exact he.1
    | date seconds => exact Json.definite_ofFloat seconds
    | var path type => exact hread path type
    -- values that are taken out of the row are definite with it
    | offset i =>
      cases row with
      | arr items =>
        exact Json.definite_getD ((Json.definite_arr_iff _).1 hrow)
          (fun w hw => mem_of_getElem? hw)
      | _ => exact Json.definite_null
    | script sql | rows path shift => exact Json.definite_null
    | leaves path => exact Json.definite_leaves (Json.definite_lookup hrow path)
    -- all other values are computed from those of the operands
    | unary op x => exact Unary.definite_apply op (hkids x mem_cons_self)
    | binary op a b => exact Binary.definite_apply op (hkids a mem_cons_self)
    | nary op terms => exact Nary.definite_apply op (hall hkids)
    | when cond x y =>
      rw [evaluateWith]
      split
      · exact hkids x (by simp [children])
      · exact hkids y (by simp [children])
    | case clauses other =>
      rw [evaluateWith]
      rcases evaluateCase_mem read row clauses (evaluateWith read row other) with h | ⟨c, hc, h⟩
      · rw [h]
        exact hkids other (mem_append_right _ (mem_singleton.2 rfl))
      · rw [h]
        exact hkids c.2 (mem_append_left _ (mem_flatMap.2
          ⟨c, hc, mem_cons_of_mem _ mem_cons_self⟩))
    | member | matching | range => exact Json.definite_bool _
    | arith op a b other => exact Arith.definite_apply op _ _ (hkids other (by simp [children]))
    | fold op terms nulls other =>
      exact Fold.definite_apply op nulls _ (hkids other (by simp [children]))
    | concat terms separator other =>
      exact Json.definite_join separator _ (hkids other (by simp [children]))
    | find text needle start other =>
      rw [evaluateWith]
      split
      · split
        · exact hkids other (by simp [children])
        · exact Json.definite_int _
      · exact hkids other (by simp [children])
    | between text opening closing start other =>
      rw [evaluateWith]
      split
      · exact Json.definite_str _
      · exact hkids other (by simp [children])
    | select fields =>
      refine Json.definite_mkObj (fun f hf => ?_)
      obtain ⟨x, hx, hfx⟩ := mem_evaluateFields read row hf
      rw [hfx]
      exact hkids x hx
    | indexOf text needle start =>
      rw [evaluateWith]
      split
      · exact Json.definite_int _
      · exact Json.definite_null
    | substring text start stop => exact Json.definite_cut _ _ _

end

variable {e : Expr}

/-- The node stands without operands. -/
def isLeaf : Expr → Bool
  | const _ | date _ | var _ _ | offset _ | script _ | leaves _ | rows _ _ => true
  | _ => false

/-- The value of an operator depends on nothing but the values of its operands. -/
theorem evaluateWith_mapChildren {f : Expr → Expr} (hleaf : e.isLeaf = false)
    (h : ∀ c ∈ e.children, evaluateWith read row (f c) = evaluateWith read' row' c) :
    evaluateWith read row (e.mapChildren f) = evaluateWith read' row' e := by
  have hall : ∀ terms : List Expr,
      (∀ c ∈ terms, evaluateWith read row (f c) = evaluateWith read' row' c) →
      evaluateAll read row (terms.map f) = evaluateAll read' row' terms := by
    intro terms hterms
    rw [evaluateAll_eq_map, evaluateAll_eq_map, map_map]
    exact map_congr_left hterms
  cases e with
  | const | date | var | offset | script | leaves | rows => cases hleaf
  | nary op terms => rw [mapChildren, evaluateWith, evaluateWith, hall terms h]
  | case clauses other =>
    rw [forall_mem_children, Each] at h
    rw [mapChildren, evaluateWith, evaluateWith, h.2]
    clear hleaf
    induction clauses with
    | nil => rfl
    | cons c rest ih =>
      rw [forall_mem_cons] at h
      rw [map_cons, evaluateCase, evaluateCase, h.1.1.1, h.1.1.2, ih ⟨h.1.2, h.2⟩]
  | range x bounds =>
    rw [children, forall_mem_cons] at h
    rw [mapChildren, evaluateWith, evaluateWith, h.1]
    replace h := h.2
    clear hleaf
    induction bounds with
    | nil => rfl
    | cons b rest ih =>
      rw [map_cons, forall_mem_cons] at h
      rw [map_cons, evaluateBounds, evaluateBounds, h.1, Json.bool.inj (ih h.2)]
  | select fields =>
    rw [mapChildren, evaluateWith]
    refine congrArg Json.mkObj ?_
    clear hleaf
    induction fields with
    | nil => rfl
    | cons field rest ih =>
      rw [children, map_cons, forall_mem_cons] at h
      rw [map_cons, evaluateFields, evaluateFields, h.1, ih h.2]
  | fold op terms nulls other | concat terms separator other =>
    rw [children, forall_mem_append, forall_mem_singleton] at h
    rw [mapChildren, evaluateWith, evaluateWith, hall terms h.1, h.2]
  | _ =>
    simp only [children, forall_mem_cons] at h
    simp only [mapChildren, evaluateWith, h]

theorem evaluateWith_congr {row row' : Json} (hfold : e.isFoldable)
    (h : ∀ c ∈ e.children, evaluateWith read row c = evaluateWith read' row' c) :
    evaluateWith read row e = evaluateWith read' row' e := by
  have hleaf : e.isLeaf = false := by
    cases e with
    | const | date | var | offset | script | leaves | rows => cases hfold
    | _ => rfl
  have hmap := evaluateWith_mapChildren (f := id) hleaf h
  rwa [mapChildren_eq_self (f := id) fun _ _ => rfl] at hmap

theorem evaluate_null_eq (hfold : e.isFoldable)
    (h : e.children.all isConstant) (read : Path → DataType → Json) (row : Json) :
    e.evaluate .null = e.evaluateWith read row := by
  refine evaluateWith_congr hfold fun c hc => ?_
  have hconst := all_eq_true.1 h c hc
  unfold isConstant constant? at hconst
  split at hconst
  · rfl
  · rfl
  · cases hconst

theorem definite_evaluate_null (he : e.Definite) : (e.evaluate .null).Definite :=
  definite_evaluateWith _ _ (fun path _ => Json.definite_lookup Json.definite_null path)
    Json.definite_null he

theorem isConstant_of_beq {y : Expr} (h : (x == y)) (hy : y.isConstant) : x.isConstant := by
  change beq x y = true at h
  cases y with
  | const | date =>
    cases x with
    | const | date => rfl
    | _ => simp [beq] at h
  | _ => cases hy

theorem nodesOf_eq_flatMap (terms : List Expr) : nodesOf terms = terms.flatMap nodes := by
  induction terms with
  | nil => rw [nodesOf, flatMap_nil]
  | cons t rest ih => rw [nodesOf, ih, flatMap_cons]

theorem nodes_eq (e : Expr) : nodes e = e :: e.children.flatMap nodes := by
  have hclauses : ∀ clauses : List (Expr × Expr),
      clauseNodes clauses = (clauses.flatMap fun (c, v) => [c, v]).flatMap nodes := by
    intro clauses
    induction clauses with
    | nil => rw [clauseNodes]; rfl
    | cons c rest ih =>
      rw [clauseNodes, ih, flatMap_cons, flatMap_append]
      simp
  have hbounds : ∀ bounds : List (Inequality × Expr),
      boundNodes bounds = (bounds.map Prod.snd).flatMap nodes := by
    intro bounds
    induction bounds with
    | nil => rw [boundNodes]; rfl
    | cons b rest ih => rw [boundNodes, ih, map_cons, flatMap_cons]
  have hfields : ∀ fields : List (String × Expr),
      fieldNodes fields = (fields.map Prod.snd).flatMap nodes := by
    intro fields
    induction fields with
    | nil => rw [fieldNodes]; rfl
    | cons f rest ih => rw [fieldNodes, ih, map_cons, flatMap_cons]
  cases e <;> simp [nodes, children, nodesOf_eq_flatMap, hclauses, hbounds, hfields]

theorem forall_mem_nodes {P : Expr → Prop} :
    (∀ n ∈ e.nodes, P n) ↔ P e ∧ ∀ c ∈ e.children, ∀ n ∈ c.nodes, P n := by
  rw [nodes_eq, forall_mem_cons]
  simp only [mem_flatMap]
  refine and_congr_right fun _ => ⟨fun h c hc n hn => h n ⟨c, hc, hn⟩, ?_⟩
  rintro h n ⟨c, hc, hn⟩
  exact h c hc n hn

theorem mem_vars {path : Path} :
    path ∈ vars e ↔ e.path? = some path ∨ ∃ c ∈ e.children, path ∈ vars c := by
  simp only [vars, Ordered.mem_elems, mem_filterMap]
  rw [nodes_eq]
  simp only [mem_cons, mem_flatMap, or_and_right, exists_or, exists_eq_left]
  refine or_congr_right ⟨?_, ?_⟩
  · rintro ⟨n, ⟨c, hc, hn⟩, hpath⟩
    exact ⟨c, hc, n, hn, hpath⟩
  · rintro ⟨c, hc, n, hn, hpath⟩
    exact ⟨n, ⟨c, hc, hn⟩, hpath⟩

end Snowbank.Expr
