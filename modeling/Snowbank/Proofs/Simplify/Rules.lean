import Snowbank.Proofs.Simplify.Missing

/-!
# Rules That Leave a Node

The rules that do not ask for anything to be simplified again: they drop
operands, replace the node by one of them, or leave it as it is. Each has a
lemma which says that the operator settles when its operands do, at the same
level.

Variables settle too, provided that the schema knows each type once and as it
is stored. Otherwise the variables that one is replaced by would be replaced
again, and so on without end.

## Main definitions

* `SettlesAt`: The expression settles in a normal form of a level.
* `Stored`: A schema knows each type once, and as it is stored.

## Theorems

* `settles_node`: A node settles when its operands do and the rules leave it.
* `settles_var`: Variables settle.
-/

namespace Snowbank

open List Bool Option

/-- A schema knows each type at a path once, and as it is stored. -/
def Schema.Stored (s : Schema) : Prop := ∀ path types, s.typesAt path = some types →
    types.Nodup ∧ ∀ t ∈ types, .storage t = t

namespace Expr

section Nodes

variable {e : Expr} {m : Nat} {op : Unary} {x a b : Expr} {terms : List Expr} {c : Expr}

variable {s : Schema} {n : Nat}
variable {nulls : Bool} {separator : String}

/-- The expression settles in a normal form of a level. -/
abbrev SettlesAt (s : Schema) (n : Nat) : Expr → Prop := Settles s (Normal s n)

abbrev ResolvesAt (s : Schema) (n : Nat) : Reduct → Prop := Resolves s (Normal s n)

theorem forms_normal : Forms s n (Normal s n) where
  normal := fun h => h
  const := Normal.ofConst
  accepts := fun h _ _ => h
  term := fun h _ _ hc => h.child hc

theorem normal_node (hcase : e.isCase = false) (hshape : Shape s e)
    (hopen : e.children.all isConstant = false) (h : ∀ c ∈ e.children, Normal s n c) :
    Normal s n e :=
  .node (fun hc => by rw [hcase] at hc; exact Bool.noConfusion hc) hshape (fun _ => hopen) h

theorem settles_of_rules {e' : Expr} (hbound : e.isBound = false)
    (hpass : passOperands? s e = some e') (hown : e'.OwnDefinite) (hfold : e'.isFoldable)
    (h : ∀ c ∈ e'.children, Normal s n c)
    (hrules : e'.children.all isConstant = false → ResolvesAt s m e'.reduce) : SettlesAt s m e :=
  settles_of_operands hbound hpass
    (resolves_rewrite ((definite_iff _).2 ⟨hown, fun c hc => (h c hc).definite⟩) hfold
      Normal.ofConst hrules)

section

variable (hbound : e.isBound = false) (hown : e.OwnDefinite) (hfold : e.isFoldable)
  (h : ∀ c ∈ e.children, SettlesAt s n c)
include hbound hown hfold h

theorem settles_node (hrules : ∀ f : Expr → Expr, (∀ c ∈ e.children, Normal s n (f c)) →
      (∀ c, pass? s c = some c → f c = c) → (e.mapChildren f).children.all isConstant = false →
      ResolvesAt s m (e.mapChildren f).reduce) : SettlesAt s m e := by
  refine settles_of_children hbound h fun f hf hfix =>
    resolves_rewrite ((definite_iff _).2 ⟨?_, ?_⟩) ?_ Normal.ofConst (hrules f hf hfix)
  · cases e <;> exact hown
  · rw [children_mapChildren]
    exact forall_mem_map.2 fun c hc => (hf c hc).definite
  · cases e with
    | nary op => cases op <;> exact hfold
    | _ => exact hfold

theorem settles_kept (hkept : ∀ f, (e.mapChildren f).isCase = false ∧ Shape s (e.mapChildren f) ∧
      (e.mapChildren f).reduce = .done (e.mapChildren f)) : SettlesAt s n e := by
  refine settles_node hbound hown hfold h fun f hf _ hopen => ?_
  rw [(hkept f).2.2]
  refine resolves_done (normal_node (hkept f).1 (hkept f).2.1 hopen ?_)
  rw [children_mapChildren]
  exact forall_mem_map.2 hf

end

theorem settles_unary_of_pass {x' : Expr} (hx : pass? s x = some x') (hnormal : Normal s n x')
    (hrules : x'.isConstant = false → ResolvesAt s m (reduceUnary op x')) :
    SettlesAt s m (unary op x) := by
  have hpass : passOperands? s (unary op x) = some (unary op x') := by
    rw [passOperands?, hx]
    rfl
  refine settles_of_rules rfl hpass trivial rfl (forall_mem_singleton.2 hnormal)
    (fun hopen => hrules ?_)
  simpa [children] using hopen

theorem settles_unary (hx : SettlesAt s n x) (hrules : ∀ x', Normal s n x' → x'.isConstant = false →
      ResolvesAt s m (reduceUnary op x')) : SettlesAt s m (unary op x) := by
  obtain ⟨x', hx, hnormal⟩ := hx
  exact settles_unary_of_pass hx hnormal (hrules x' hnormal)

theorem settles_binary {op : Binary} (ha : SettlesAt s n a) (hb : SettlesAt s n b)
    (hrules : ∀ a' b', Normal s n a' → Normal s n b' →
      (binary op a' b').children.all isConstant = false →
      ResolvesAt s m (reduceBinary op a' b')) : SettlesAt s m (binary op a b) :=
  settles_node rfl trivial rfl (forall_mem_cons.2 ⟨ha, forall_mem_singleton.2 hb⟩)
    fun f hf _ => hrules (f a) (f b) (hf a mem_cons_self) (hf b (mem_cons_of_mem _ mem_cons_self))

theorem settles_nary {op : Nary} (h : ∀ t ∈ terms, SettlesAt s n t) (hop : op ≠ .tuple)
    (hrules : ∀ simple : List Expr, (∀ t ∈ simple, Normal s n t) →
      simple.all isConstant = false → ResolvesAt s n (reduceNary op simple)) :
    SettlesAt s n (nary op terms) := by
  have hfold : (nary op terms).isFoldable := by
    cases op with
    | tuple => exact absurd rfl hop
    | _ => rfl
  exact settles_node rfl trivial hfold h fun f hf _ => hrules (terms.map f) (forall_mem_map.2 hf)

theorem open_filter_isNull (h : ∃ t ∈ terms, t.isConstant = false) :
    ∃ t ∈ terms.filter (!·.isNull), t.isConstant = false := by
  obtain ⟨t, ht, hopen⟩ := h
  refine ⟨t, mem_filter.2 ⟨ht, ?_⟩, hopen⟩
  rw [isNull_of_not_isConstant hopen]
  rfl

theorem settles_length (hx : SettlesAt s n x) : SettlesAt s n (length x) :=
  settles_unary hx (fun x' hnormal hopen => resolves_done
    (normal_node rfl trivial (by simpa [children] using hopen) (forall_mem_singleton.2 hnormal)))

theorem settles_end (hop : op = .first ∨ op = .last) {x : Expr}
    (hx : SettlesAt s n x) : SettlesAt s n (unary op x) := by
  refine settles_unary hx (fun x' hnormal hopen => ?_)
  have hends : reduceUnary op x' = .done (if x'.isMany then unary op x' else x') := by
    rcases hop with rfl | rfl <;> rfl
  rw [hends]
  split
  next hmany =>
    refine resolves_done (normal_node rfl ?_ (by simpa [children] using hopen)
      (forall_mem_singleton.2 hnormal))
    rcases hop with rfl | rfl <;> exact hmany
  · exact resolves_done hnormal

theorem settles_split (ha : SettlesAt s n a)
    (hb : SettlesAt s n b) : SettlesAt s n (binary .split a b) :=
  settles_binary ha hb (fun _ _ hna hnb hopen => resolves_done (normal_node rfl trivial hopen
      (forall_mem_cons.2 ⟨hna, forall_mem_singleton.2 hnb⟩)))

theorem settles_matching (pattern : String) (hx : SettlesAt s n x) :
    SettlesAt s n (matching x pattern) :=
  settles_kept rfl trivial rfl (forall_mem_singleton.2 hx) fun _ => ⟨rfl, trivial, rfl⟩

theorem forall_mem_three {P : Expr → Prop} (ha : P a) (hb : P b) (hc : P c) :
    ∀ x ∈ [a, b, c], P x :=
  forall_mem_cons.2 ⟨ha, forall_mem_cons.2 ⟨hb, forall_mem_singleton.2 hc⟩⟩

section

variable (ha : SettlesAt s n a) (hb : SettlesAt s n b) (hc : SettlesAt s n c)
include ha hb hc

theorem settles_indexOf : SettlesAt s n (indexOf a b c) :=
  settles_kept rfl trivial rfl (forall_mem_three ha hb hc) fun _ => ⟨rfl, trivial, rfl⟩

theorem settles_substring : SettlesAt s n (substring a b c) :=
  settles_kept rfl trivial rfl (forall_mem_three ha hb hc) fun _ => ⟨rfl, trivial, rfl⟩

end

theorem settles_tuple (h : ∀ t ∈ terms, SettlesAt s n t) : SettlesAt s n (nary .tuple terms) :=
  settles_of_children rfl h fun _ hf _ => resolves_done (.node (fun h => Bool.noConfusion h) trivial
    (fun h => Bool.noConfusion h) (forall_mem_map.2 hf))

theorem settles_select {fields : List (String × Expr)}
    (h : ∀ x ∈ fields.map Prod.snd, SettlesAt s n x) : SettlesAt s n (select fields) := by
  refine settles_of_children rfl h fun f hf _ => resolves_done (.node (fun h => Bool.noConfusion h)
    trivial (fun h => Bool.noConfusion h) ?_)
  rw [children_mapChildren]
  exact forall_mem_map.2 hf

theorem settles_count (h : ∀ t ∈ terms, SettlesAt s n t) : SettlesAt s n (nary .count terms) := by
  refine settles_nary h (by decide) (fun simple hnormal hopen => resolves_done ?_)
  refine normal_node rfl (fun t ht => ?_) (all_isConstant_eq_false ?_)
    (fun t ht => hnormal t (mem_filter.1 ht).1)
  · exact (not_eq_true' _).mp (mem_filter.1 ht).2
  · exact open_filter_isNull (exists_open hopen)

theorem settles_extreme {op : Nary} (hop : op = .min ∨ op = .max) {terms : List Expr}
    (h : ∀ t ∈ terms, SettlesAt s n t) : SettlesAt s n (nary op terms) := by
  refine settles_nary h (by rcases hop with rfl | rfl <;> decide) (fun simple hnormal hopen => ?_)
  have hreduce : reduceNary op simple = .done (reduceExtreme op simple) := by
    rcases hop with rfl | rfl <;> rfl
  have hmem : ∀ t ∈ distinctTerms simple, t ∈ simple ∧ t.isNull = false := by
    intro t ht
    rcases mem_foldl_pushNew ht with ht | ht
    · cases ht
    · exact ⟨(mem_filter.1 ht).1, (not_eq_true' _).mp (mem_filter.1 ht).2⟩
  have hopen' : ∃ t ∈ distinctTerms simple, t.isConstant = false :=
    open_foldl_pushNew (by rw [nil_append]; exact open_filter_isNull (exists_open hopen))
  have hextreme : ∀ kept, distinctTerms simple = kept →
      (∀ t, kept = [t] → t.dataType.isNumeric = false) → Normal s n (nary op kept) := by
    intro kept hkept hone
    subst hkept
    have hshape : NaryShape (distinctTerms simple) op := by
      rcases hop with rfl | rfl
      · exact ⟨distinct_foldl_pushNew Pairwise.nil, fun t ht => (hmem t ht).2, hone⟩
      · exact ⟨distinct_foldl_pushNew Pairwise.nil, fun t ht => (hmem t ht).2, hone⟩
    exact normal_node rfl hshape (all_isConstant_eq_false hopen')
      (fun t ht => hnormal t (hmem t ht).1)
  rw [hreduce, reduceExtreme]
  refine resolves_done ?_
  split
  next e heq =>
    split
    · exact hnormal e (hmem e (heq ▸ mem_singleton.2 rfl)).1
    next hnumeric =>
      refine hextreme _ heq (fun t ht => ?_)
      cases ht
      exact not_eq_true _ ▸ hnumeric
  next hne => exact hextreme _ rfl (fun t ht => absurd ht (hne t))

theorem isCertain_of_isConstant (hconst : e.isConstant)
    (hnull : e.isNull = false) : e.isCertain := by
  cases e with
  | const v =>
    cases v with
    | null => cases hnull
    | _ => exact definite_const rfl
  | date => exact definite_const rfl
  | _ => cases hconst

theorem settles_coalesce (h : ∀ t ∈ terms, SettlesAt s n t) : SettlesAt s n (coalesce terms) := by
  refine settles_nary h (by decide) (fun simple hnormal _ => ?_)
  have hmem : ∀ t ∈ candidates (flatTerms simple) [],
      Normal s n t ∧ t.isNary .coalesce = false := by
    intro t ht
    rcases mem_candidates ht with ht | ht
    · cases ht
    · rw [flatTerms_eq] at ht
      obtain ⟨e, he, ht⟩ := mem_flatMap.1 ht
      rcases spread_cases .coalesce e with ⟨inner, rfl, _⟩ | ⟨hnary, hspread⟩
      · exact ⟨(hnormal _ he).child ht, (hnormal _ he).shape.2.2 t ht⟩
      · rw [hspread, mem_singleton] at ht
        subst ht
        exact ⟨hnormal t he, hnary⟩
  have hchosen : Chosen (candidates (flatTerms simple) []) :=
    chosen_candidates Pairwise.nil (forall_mem_nil _)
  rw [reduceNary, reduceCoalesce]
  refine resolves_done ?_
  split
  · exact Normal.null
  next e heq => exact (hmem e (heq ▸ mem_singleton.2 rfl)).1
  next hne hne' =>
    rcases heq : candidates (flatTerms simple) [] with _ | ⟨a, _ | ⟨b, rest⟩⟩
    · exact absurd heq hne
    · exact absurd heq (hne' a)
    · rw [heq] at hmem hchosen
      refine normal_node rfl ⟨Nat.le_add_left _ _, hchosen, fun t ht => (hmem t ht).2⟩ ?_
        (fun t ht => (hmem t ht).1)
      -- the first term is not the last, so it is uncertain and hence no constant
      refine all_isConstant_eq_false ⟨a, mem_cons_self, ?_⟩
      have huncertain := hchosen.uncertain a mem_cons_self
      rw [← not_eq_true] at huncertain ⊢
      exact fun hconst => huncertain
        (isCertain_of_isConstant hconst (hchosen.present a mem_cons_self))

theorem coalesce_two (ha : SettlesAt s n a)
    (hb : SettlesAt s n b) : SettlesAt s n (coalesce [a, b]) :=
  settles_coalesce (forall_mem_cons.2 ⟨ha, forall_mem_singleton.2 hb⟩)

theorem settles_int (i : Int) : SettlesAt s n (int i) := settles_const (Normal.int i)

theorem open_of_append_null
    (h : (terms ++ [null]).all isConstant = false) : ∃ t ∈ terms, t.isConstant = false := by
  obtain ⟨t, ht, hopen⟩ := exists_open h
  rcases mem_append.1 ht with ht | ht
  · exact ⟨t, ht, hopen⟩
  · rw [mem_singleton.1 ht] at hopen
    cases hopen

theorem not_isIdentity_of_open (op : Fold) {e : Expr} (h : e.isConstant = false) :
    isIdentity op e = false := by
  have hnone : e.constant? = none := by
    rw [isConstant, isSome_eq_false_iff, isNone_iff_eq_none] at h
    exact h
  rw [isIdentity, hnone]
  rfl

theorem resolves_fold_null {op : Fold}
    (hnormal : ∀ t ∈ terms, Normal s n t) (hopen : ∃ t ∈ terms, t.isConstant = false) :
    ResolvesAt s n (reduceFold op terms nulls null) := by
  have hkeep : ∀ t ∈ terms.filter (!isIdentity op ·), t ∈ terms ∧ isIdentity op t = false :=
    fun t ht => ⟨(mem_filter.1 ht).1, (Bool.not_eq_true' _).mp (mem_filter.1 ht).2⟩
  have hfold : ∀ kept, terms.filter (!isIdentity op ·) = kept →
      (∀ t, kept = [t] → t.dataType.isNumeric = false) →
      Normal s n (fold op kept nulls null) := by
    intro kept hkept hone
    subst hkept
    refine normal_node rfl ⟨rfl, fun t ht => (hkeep t ht).2, hone⟩ (all_isConstant_eq_false ?_) ?_
    · obtain ⟨t, ht, hconst⟩ := hopen
      refine ⟨t, mem_append_left _ (mem_filter.2 ⟨ht, ?_⟩), hconst⟩
      rw [not_isIdentity_of_open op hconst]
      rfl
    · rw [children, forall_mem_append]
      exact ⟨fun t ht => hnormal t (hkeep t ht).1, forall_mem_singleton.2 Normal.null⟩
  rw [reduceFold]
  simp only [isNull, Bool.not_true, Bool.false_eq_true, if_false]
  split
  · exact resolves_done (Normal.ofConst (Json.definite_ofFloat _))
  next e heq =>
    refine resolves_done ?_
    split
    · exact hnormal e (hkeep e (heq ▸ mem_singleton.2 rfl)).1
    next hnumeric =>
      refine hfold _ heq (fun t ht => ?_)
      cases ht
      exact Bool.not_eq_true _ ▸ hnumeric
  next hne => exact resolves_done (hfold _ rfl (fun t ht => absurd ht (hne t)))

theorem settles_fold_null {op : Fold} (h : ∀ t ∈ terms, SettlesAt s n t) :
    SettlesAt s n (fold op terms nulls null) := by
  refine settles_node rfl trivial rfl
    (forall_mem_append.2 ⟨h, forall_mem_singleton.2 (settles_const Normal.null)⟩)
    fun f hf hfix hopen => ?_
  rw [mapChildren, hfix null (pass?_of_normal Normal.null)] at hopen ⊢
  exact resolves_fold_null (forall_mem_map.2 (forall_mem_append.1 hf).1)
    (open_of_append_null hopen)

theorem normal_concat
    (hnormal : ∀ t ∈ terms, Normal s n t) (hopen : ∃ t ∈ terms, t.isConstant = false) :
    Normal s n (concat (terms.filter (!·.isNull)) separator null) := by
  refine normal_node rfl ⟨rfl, fun t ht => (not_eq_true' _).mp (mem_filter.1 ht).2⟩
    (all_isConstant_eq_false ?_) ?_
  · obtain ⟨t, ht, hconst⟩ := open_filter_isNull hopen
    exact ⟨t, mem_append_left _ ht, hconst⟩
  · rw [children, forall_mem_append]
    exact ⟨fun t ht => hnormal t (mem_filter.1 ht).1, forall_mem_singleton.2 Normal.null⟩

theorem settles_concat_null (h : ∀ t ∈ terms, SettlesAt s n t) :
    SettlesAt s n (concat terms separator null) := by
  refine settles_node rfl trivial rfl
    (forall_mem_append.2 ⟨h, forall_mem_singleton.2 (settles_const Normal.null)⟩)
    fun f hf hfix hopen => ?_
  rw [mapChildren, hfix null (pass?_of_normal Normal.null)] at hopen ⊢
  exact resolves_done (normal_concat (forall_mem_map.2 (forall_mem_append.1 hf).1)
    (open_of_append_null hopen))

theorem settles_arith_null {op : Arith} (ha : SettlesAt s n a)
    (hb : SettlesAt s n b) : SettlesAt s n (arith op a b null) := by
  refine settles_node rfl trivial rfl (forall_mem_three ha hb (settles_const Normal.null))
    fun f hf hfix hopen => ?_
  have hbelow : ∀ c ∈ (arith op (f a) (f b) (f null)).children, Normal s n c :=
    forall_mem_map (l := [a, b, null]).2 hf
  rw [mapChildren] at hopen ⊢
  rw [hfix null (pass?_of_normal Normal.null)] at hopen hbelow ⊢
  exact resolves_done (normal_node rfl rfl hopen hbelow)

end Nodes

section

variable {s : Schema} (hs : s.Stored) {n : Nat}
variable {path : Path}

theorem normal_var {type : DataType} (h : bind s path type = var path type) :
    Normal s n (var path type) :=
  .node (fun h => Bool.noConfusion h) h (fun h => Bool.noConfusion h) (forall_mem_nil _)

theorem normal_columns {types : List DataType} (hroot : ¬ (path == .root))
    (htwo : 1 < types.length) (hnodup : types.Nodup)
    (hown : ∀ t ∈ types, bind s path t = var path t) :
    Normal s n (coalesce (types.map (var path))) := by
  have hmem : ∀ x ∈ types.map (var path), ∃ t ∈ types, x = var path t := by
    refine forall_mem_map.2 fun t ht => ?_
    exact ⟨t, ht, rfl⟩
  have hdistinct : Distinct (types.map (var path)) := by
    refine pairwise_map.2 (hnodup.imp (fun {a b} hne => ?_))
    change beq (var path b) (var path a) = false
    rw [beq, beq_self_eq_true, Bool.true_and, beq_eq_false_iff_ne]
    exact fun h => hne h.symm
  have hchosen : Chosen (types.map (var path)) := by
    refine chosen_of_uncertain hdistinct (fun x hx => ?_)
    obtain ⟨t, -, rfl⟩ := hmem x hx
    refine ⟨rfl, ?_⟩
    rw [isCertain, missingPlain, missingWith, if_neg hroot]
    change beq _ _ = false
    rw [beq] <;> simp
  refine normal_node rfl ⟨by rwa [length_map], hchosen, fun x hx => ?_⟩ ?_ (fun x hx => ?_)
  · obtain ⟨t, -, rfl⟩ := hmem x hx
    rfl
  · rcases types with _ | ⟨a, _ | ⟨b, rest⟩⟩
    · exact absurd htwo (Nat.not_lt_zero 1)
    · exact absurd htwo (Nat.lt_irrefl 1)
    · rfl
  · obtain ⟨t, ht, rfl⟩ := hmem x hx
    exact normal_var (hown t ht)

include hs in
/-- What a variable is replaced by is normal: the variables in it are stored
    under their own types. -/
theorem normal_bind (path : Path) (type : DataType) : Normal s n (bind s path type) := by
  by_cases hroot : (path == Path.root)
  · have hbind : bind s path type = var path type := by rw [bind, if_pos hroot]
    rw [hbind]
    exact normal_var hbind
  · cases htypes : s.typesAt path with
    | none =>
      have hbind : bind s path type = var path type := by rw [bind, if_neg hroot, htypes]
      rw [hbind]
      exact normal_var hbind
    | some types =>
      cases types with
      | nil =>
        rw [bind, if_neg hroot, htypes]
        dsimp only
        split
        next hdesc =>
          refine normal_var ?_
          rw [bind, if_neg hroot, htypes]
          exact if_pos hdesc
        · exact Normal.null
      | cons first rest =>
        -- a variable of a stored scalar type is bound to itself
        have hown : ∀ t, t.isScalar → (first :: rest).contains t.storage →
            bind s path t = var path t := by
          intro t hscalar hmem
          rw [bind, if_neg hroot, htypes]
          exact if_pos (by rw [hscalar, hmem]; rfl)
        rw [bind, if_neg hroot, htypes]
        dsimp only
        split
        next hstored =>
          rw [and_eq_true] at hstored
          exact normal_var (hown type hstored.1 hstored.2)
        · split
          next hmany =>
            rw [and_eq_true, decide_eq_true_iff] at hmany
            have hstored := hs path _ htypes
            refine normal_columns hroot hmany.1 hstored.1 (fun t ht => hown t ?_ ?_)
            · exact all_eq_true.1 hmany.2 t ht
            · rw [hstored.2 t ht]
              exact contains_iff_mem.2 ht
          next hsingle =>
            refine normal_var ?_
            rw [bind, if_neg hroot, htypes]
            dsimp only
            rw [if_neg hsingle]
            exact ite_self _

include hs in
theorem settles_var (path : Path) (type : DataType) : SettlesAt s n (var path type) :=
  ⟨bind s path type, by rw [pass?], normal_bind hs path type⟩

end

end Expr

end Snowbank
