import Snowbank.Proofs.Simplify.Rules

/-!
# Rules That Spell Out a Node

The rules that write an expression out of other operators, to be simplified
again. The operators they use are known to settle by then, so each rule has a
lemma, and these stand in the order in which the rules use one another.

Choices of clauses are where a level is lost, and with them equality and
membership, which are spelled out as choices of clauses.

## Main definitions

* `Stable`: The levels at which conversions settle as well.

## Theorems

* `settles_case`: A choice of clauses settles one level higher.
* `stable_zero`: Level zero is stable.
-/

namespace Snowbank.Expr

open List Bool

variable {s : Schema} {n : Nat}
variable {a b : Expr}

section

variable (hC : Closed s n (Normal s n))

include hC

variable {other : Expr} {terms : List Expr}

theorem settles_arith {op : Arith} (ha : SettlesAt s n a)
    (hb : SettlesAt s n b) (ho : SettlesAt s n other) : SettlesAt s n (arith op a b other) := by
  refine settles_node rfl trivial rfl (forall_mem_three ha hb ho) fun f hf _ hopen => ?_
  have hbelow : ∀ c ∈ (arith op (f a) (f b) (f other)).children, Normal s n c :=
    forall_mem_map (l := [a, b, other]).2 hf
  rw [mapChildren] at hopen ⊢
  rw [reduce]
  split
  next hnull => exact resolves_done (normal_node rfl hnull hopen hbelow)
  · simp only [children, forall_mem_cons] at hf
    exact resolves_again (coalesce_two (settles_arith_null (hC.self hf.1) (hC.self hf.2.1))
      (hC.self hf.2.2.1))

theorem settles_fold {op : Fold} {nulls : Bool}
    (h : ∀ t ∈ terms, SettlesAt s n t) (ho : SettlesAt s n other) :
    SettlesAt s n (fold op terms nulls other) := by
  refine settles_node rfl trivial rfl
    (forall_mem_append.2 ⟨h, forall_mem_singleton.2 ho⟩) fun f hf _ hopen => ?_
  obtain ⟨hterms, hother⟩ := forall_mem_append.1 hf
  rw [mapChildren] at hopen ⊢
  by_cases hnull : (f other).isNull
  · rw [eq_null_of_isNull hnull] at hopen ⊢
    exact resolves_fold_null (forall_mem_map.2 hterms) (open_of_append_null hopen)
  · rw [not_eq_true] at hnull
    rw [reduce, reduceFold, hnull]
    exact resolves_again (coalesce_two
      (settles_fold_null (forall_mem_map.2 fun t ht => hC.self (hterms t ht)))
      (hC.self (hother other mem_cons_self)))

theorem settles_concat {separator : String}
    (h : ∀ t ∈ terms, SettlesAt s n t) (ho : SettlesAt s n other) :
    SettlesAt s n (concat terms separator other) := by
  refine settles_node rfl trivial rfl
    (forall_mem_append.2 ⟨h, forall_mem_singleton.2 ho⟩) fun f hf _ hopen => ?_
  obtain ⟨hterms, hother⟩ := forall_mem_append.1 hf
  rw [mapChildren] at hopen ⊢
  by_cases hnull : (f other).isNull
  · rw [eq_null_of_isNull hnull] at hopen ⊢
    exact resolves_done (normal_concat (forall_mem_map.2 hterms) (open_of_append_null hopen))
  · rw [not_eq_true] at hnull
    rw [reduce, hnull]
    exact resolves_again (coalesce_two
      (settles_concat_null (forall_mem_map.2 fun t ht => hC.self (hterms t ht)))
      (hC.self (hother other mem_cons_self)))

end

section

variable (hC : Closed s n (Normal s n))

variable {type : DataType} {x : Expr}

/-- A test of the type of a value that has one type. -/
theorem resolves_isType_single (hx : Normal s n x)
    (hopen : x.isConstant = false) (halts : x.alternatives? = none)
    (hpresent : SettlesAt s n (presentPlain x)) : ResolvesAt s n (reduceIsType type x) := by
  have hnormal : ((x.dataType.isScalar = false ∧ x.dataType ≠ .nested) ∨
      (type = .integer ∧ x.dataType = .number)) → Normal s n (unary (.isType type) x) :=
    fun h => normal_node rfl ⟨halts, h⟩ (by simpa [children] using hopen)
      (forall_mem_singleton.2 hx)
  rw [reduceIsType, halts]
  dsimp only
  split
  next hloose =>
    rw [and_eq_true, not_eq_true', bne_iff_ne] at hloose
    exact resolves_done (hnormal (.inl hloose))
  · split
    · exact resolves_again hpresent
    · split
      next hwhole =>
        rw [and_eq_true, beq_iff_eq, beq_iff_eq] at hwhole
        exact resolves_done (hnormal (.inr hwhole))
      · exact resolves_done Normal.no

include hC

theorem settles_isType (hx : SettlesAt s n x) : SettlesAt s n (unary (.isType type) x) := by
  refine settles_unary hx (fun x' hnormal hopen => ?_)
  cases halts : x'.alternatives? with
  | none => exact resolves_isType_single hnormal hopen halts (hC.settles_present hnormal)
  | some terms =>
    rw [reduceUnary, reduceIsType, halts]
    refine resolves_again (hC.or (fun t ht => ?_))
    obtain ⟨v, hv, rfl⟩ := mem_map.1 ht
    obtain ⟨path, t, rfl, hvar⟩ := hC.alternative_mem hnormal halts hv
    exact settles_unary_of_pass (pass?_var hvar) hvar
      (fun hopen => resolves_isType_single hvar hopen rfl (hC.settles_present hvar))

end

section

variable (hs : s.Stored)

include hs

theorem settles_get (ha : SettlesAt s n a)
    (hb : SettlesAt s n b) : SettlesAt s n (binary .get a b) := by
  refine settles_binary ha hb (fun a' b' hna hnb hopen => ?_)
  unfold reduceBinary
  dsimp only
  split
  next terms i =>
    refine resolves_done ?_
    cases hterm : (i.toNat?.bind fun i => terms[i]?) with
    | none => exact Normal.null
    | some t =>
      obtain ⟨i, -, ht⟩ := Option.bind_eq_some_iff.1 hterm
      exact hna.child (mem_of_getElem? ht)
  · exact resolves_again (settles_var hs _ _)
  next htuple hvar =>
    refine resolves_done (normal_node rfl ?_ hopen
      (forall_mem_cons.2 ⟨hna, forall_mem_singleton.2 hnb⟩))
    change isOpenGet a' b' = false
    unfold isOpenGet
    split
    · exact absurd rfl (htuple _ _ rfl)
    · exact absurd rfl (hvar _ _ _ rfl)
    · rfl

end

section

variable (hC : Closed s n (Normal s n))

include hC in
theorem settles_case {clauses : List (Expr × Expr)} {other : Expr}
    (h : ∀ c ∈ clauses, SettlesAt s n c.1 ∧ SettlesAt s n c.2)
    (ho : SettlesAt s n other) : SettlesAt s (n + 1) (case clauses other) := by
  -- what is left may have nothing open in it and not be folded yet
  refine settles_node rfl trivial rfl (forall_mem_children.2 ⟨h, ho⟩) fun f hf _ _ => ?_
  rw [forall_mem_children] at hf
  have hnormal : ∀ c ∈ clauses.map fun c => (f c.1, f c.2), Normal s n c.1 ∧ Normal s n c.2 :=
    forall_mem_map.2 hf.1
  have hno : Normal s n (f other) := hf.2
  change Resolves s _ (reduceCase (clauses.map fun c => (f c.1, f c.2)) (f other))
  generalize clauses.map (fun c => (f c.1, f c.2)) = simple at hnormal ⊢
  generalize f other = o' at hno ⊢
  rw [reduceCase]
  rcases hlive : liveClauses o' simple with ⟨kept, last⟩
  obtain ⟨hkept, hlast⟩ := liveClauses_spec hlive
  have hnlast : Normal s n last := by
    rcases hlast with rfl | ⟨c, hc, rfl⟩
    · exact hno
    · exact (hnormal c hc).2
  dsimp only
  split
  · exact resolves_done hnlast.succ
  next hdiffer =>
    split
    next cond x =>
      have hclause := hkept (cond, x) mem_cons_self
      have hparts := hnormal _ hclause.1
      exact resolves_again ((hC.settles_when (hC.self hparts.1) (hC.self hparts.2)
        (hC.self hnlast)).imp (fun _ h => h.succ))
    next hone =>
      have hempty : kept = [] → False := by
        rintro rfl
        exact hdiffer rfl
      have htwo := two_le_length hempty (fun c hc => hone c.1 c.2 hc)
      exact resolves_done (.late
        ⟨htwo, fun c hc => (hkept c hc).2, not_eq_true _ ▸ hdiffer⟩
        (forall_mem_children.2 ⟨fun c hc => hnormal c (hkept c hc).1, hnlast⟩))

end

section

variable (hC : Closed s n (Normal s n))

include hC

theorem settles_compare {op : Inequality} (ha : SettlesAt s n a)
    (hb : SettlesAt s n b) : SettlesAt s n (binary (.compare op) a b) := by
  refine settles_binary ha hb (fun a' b' hna hnb _ => ?_)
  rw [reduceBinary]
  split
  · exact resolves_done Normal.no
  · exact resolves_again (hC.or (hC.settles_pairing rfl hna hnb))

theorem settles_eq (ha : SettlesAt s n a) (hb : SettlesAt s n b) :
    SettlesAt s (n + 1) (binary .eq a b) := by
  refine settles_binary ha hb (fun a' b' hna hnb _ => ?_)
  have hsucc : ∀ {e : Expr}, SettlesAt s n e → SettlesAt s (n + 1) e :=
    fun h => h.imp (fun _ h => h.succ)
  have hboth := hC.and_two (hC.missing hna) (hC.missing hnb)
  rw [reduceBinary]
  by_cases hnulla : a'.isNull
  · rw [reduceEq, if_pos hnulla]
    exact resolves_again (hsucc (hC.missing hnb))
  · by_cases hnullb : b'.isNull
    · rw [reduceEq, if_neg hnulla, if_pos hnullb]
      exact resolves_again (hsucc (hC.missing hna))
    · by_cases hsame : (a' == b')
      · rw [reduceEq, if_neg hnulla, if_neg hnullb, if_pos hsame]
        exact resolves_done Normal.yes
      · rw [not_eq_true] at hnulla hnullb hsame
        rw [reduceEq_eq hnulla hnullb hsame]
        split
        · exact resolves_again (hsucc (hC.or (forall_mem_cons.2
            ⟨hboth, hC.settles_pairing rfl hna hnb⟩)))
        · split
          · exact resolves_again (hsucc hboth)
          · refine resolves_again (settles_case hC ?_
              (hC.settles_basic rfl (hC.self hna) (hC.self hnb)))
            exact forall_mem_cons.2 ⟨⟨hC.missing hna, hC.missing hnb⟩,
              forall_mem_singleton.2 ⟨hC.missing hnb, hC.settles_no⟩⟩

theorem settles_range {x : Expr} {bounds : List (Inequality × Expr)} (hx : SettlesAt s n x)
    (h : ∀ b ∈ bounds.map Prod.snd, SettlesAt s n b) : SettlesAt s n (range x bounds) := by
  refine settles_node rfl trivial rfl (forall_mem_cons.2 ⟨hx, h⟩) fun f hf _ _ => ?_
  obtain ⟨hnx, hbounds⟩ := forall_mem_cons.1 hf
  refine resolves_again (hC.and (fun t ht => ?_))
  obtain ⟨d, hd, rfl⟩ := mem_map.1 ht
  obtain ⟨b, hb, rfl⟩ := mem_map.1 hd
  exact settles_compare hC (hC.self hnx) (hC.self (hbounds b.2 (mem_map_of_mem hb)))

end

section

variable {x : Expr} {set : List Json}

theorem resolves_member_single (hx : Normal s n x)
    (hopen : x.isConstant = false) (htwo : 2 ≤ set.length)
    (hset : ∀ v ∈ set, v.Definite ∧ v.isNull = false) (halts : x.alternatives? = none) :
    ResolvesAt s n (reduceMember x set) := by
  have hshape : Shape s (member x set) := ⟨htwo, hset, halts⟩
  rw [reduceMember_of_shape hshape]
  exact resolves_done (normal_node rfl hshape (by simpa [children] using hopen)
    (forall_mem_singleton.2 hx))

theorem settles_member_of_pass {m : Nat} {x' : Expr}
    (hx : pass? s x = some x') (hnx : Normal s n x') (hset : ∀ v ∈ set, v.Definite)
    (hrules : x'.isConstant = false → ResolvesAt s m (reduceMember x' set)) :
    SettlesAt s m (member x set) := by
  have hpass : passOperands? s (member x set) = some (member x' set) := by
    rw [passOperands?, hx]
    rfl
  refine settles_of_rules rfl hpass hset rfl (forall_mem_singleton.2 hnx) (fun hopen => hrules ?_)
  simpa [children] using hopen

variable (hC : Closed s n (Normal s n))

include hC

/-- Membership in a set of several values settles at the same level. -/
theorem resolves_member_several (hx : Normal s n x)
    (hopen : x.isConstant = false) (htwo : 2 ≤ set.length)
    (hset : ∀ v ∈ set, v.Definite ∧ v.isNull = false) : ResolvesAt s n (reduceMember x set) := by
  cases halts : x.alternatives? with
  | none => exact resolves_member_single hx hopen htwo hset halts
  | some terms =>
    have hnull : set.any Json.isNull = false := by
      rw [any_eq_false]
      intro v hv
      rw [(hset v hv).2]
      exact false_ne_true
    have hreduce : reduceMember x set = .again (or (terms.map fun t => member t set)) := by
      match set, htwo with
      | a :: b :: rest, _ =>
        unfold reduceMember
        simp [hnull, halts]
    rw [hreduce]
    refine resolves_again (hC.or (fun t ht => ?_))
    obtain ⟨v, hv, rfl⟩ := mem_map.1 ht
    obtain ⟨path, type, rfl, hvar⟩ := hC.alternative_mem hx halts hv
    exact settles_member_of_pass (pass?_var hvar) hvar (fun v hv => (hset v hv).1)
      (fun hopen => resolves_member_single hvar hopen htwo hset rfl)

/-- Membership in a set without null settles one level higher, since the test
    against a single value is an equality. -/
theorem settles_member_present (hx : SettlesAt s n x)
    (hset : ∀ v ∈ set, v.Definite ∧ v.isNull = false) : SettlesAt s (n + 1) (member x set) := by
  obtain ⟨x', hx, hnx⟩ := hx
  refine settles_member_of_pass hx hnx (fun v hv => (hset v hv).1) (fun hopen => ?_)
  match set with
  | [] => exact resolves_done Normal.no
  | [v] =>
    have hv := hset v mem_cons_self
    have hreduce : reduceMember x' [v] = .again (binary .eq x' (const v)) := by
      unfold reduceMember
      simp [hv.2]
    rw [hreduce]
    exact resolves_again (settles_eq hC (hC.self hnx) (settles_const (Normal.ofConst hv.1)))
  | a :: b :: rest =>
    obtain ⟨r, hr, hnr⟩ := resolves_member_several hC hnx hopen (Nat.le_add_left _ _) hset
    exact ⟨r, hr, hnr.succ⟩

theorem settles_member (hx : SettlesAt s n x)
    (hset : ∀ v ∈ set, v.Definite) : SettlesAt s (n + 1) (member x set) := by
  by_cases hnull : set.any Json.isNull
  · obtain ⟨x', hx, hnx⟩ := hx
    refine settles_member_of_pass hx hnx hset (fun _ => ?_)
    have hreduce : reduceMember x' set =
        .again (or [missingPlain x', member x' (set.filter (!·.isNull))]) := by
      unfold reduceMember
      split
      · cases hnull
      · rw [if_pos hnull]
    rw [hreduce]
    refine resolves_again (forms_normal.settles_or (forall_mem_cons.2
      ⟨(hC.missing hnx).imp (fun _ h => h.succ), forall_mem_singleton.2 ?_⟩))
    exact settles_member_present hC (hC.self hnx) (fun v hv =>
      ⟨hset v (mem_filter.1 hv).1, (not_eq_true' _).mp (mem_filter.1 hv).2⟩)
  · refine settles_member_present hC hx (fun v hv => ⟨hset v hv, ?_⟩)
    rw [not_eq_true, any_eq_false] at hnull
    exact not_eq_true _ ▸ hnull v hv

end

section

variable (hC : Closed s n (Normal s n))

include hC

variable {a b c other : Expr}

theorem settles_side {op : Side} (ha : SettlesAt s n a)
    (hb : SettlesAt s n b) : SettlesAt s n (binary (.side op) a b) := by
  refine settles_binary ha hb (fun text count hnt hnc _ => ?_)
  have htext := hC.self hnt
  have hcount := hC.self hnc
  have hsize := settles_length htext
  have hfrom : SettlesAt s n (nary .max [int 0, sub (length text) count]) :=
    settles_extreme (.inr rfl) (forall_mem_cons.2
      ⟨settles_int 0, forall_mem_singleton.2 (settles_arith_null hsize hcount)⟩)
  have hclamped : SettlesAt s n (nary .max [int 0, nary .min [count, length text]]) :=
    settles_extreme (.inr rfl) (forall_mem_cons.2 ⟨settles_int 0,
      forall_mem_singleton.2 (settles_extreme (.inl rfl) (forall_mem_cons.2
        ⟨hcount, forall_mem_singleton.2 hsize⟩))⟩)
  refine resolves_again (hC.settles_when (hC.or_two (hC.missing hnt) (hC.missing hnc))
    (settles_const Normal.null) ?_)
  cases op with
  | left => exact settles_substring htext (settles_int 0) hclamped
  | right => exact settles_substring htext hfrom hsize
  | notLeft => exact settles_substring htext hclamped hsize
  | notRight => exact settles_substring htext (settles_int 0) hfrom

theorem settles_lowerAffix {text affix part : Expr} (ht : Normal s n text) (ha : Normal s n affix)
    (hp : SettlesAt s n part) : SettlesAt s n (lowerAffix text affix part) :=
  hC.or_two (hC.missing ha) (hC.and_two (hC.settles_present ht)
    (hC.settles_basic rfl hp (hC.self ha)))

section

variable (ha : SettlesAt s n a) (hb : SettlesAt s n b)
include ha hb

theorem settles_startsWith : SettlesAt s n (binary .startsWith a b) :=
  settles_binary ha hb (fun _ _ hna hnb _ => resolves_again (settles_lowerAffix hC hna hnb
    (settles_substring (hC.self hna) (settles_int 0) (settles_length (hC.self hnb)))))

theorem settles_endsWith : SettlesAt s n (binary .endsWith a b) := by
  refine settles_binary ha hb (fun a' b' hna hnb _ => ?_)
  have hsize := settles_length (hC.self hna)
  refine resolves_again (settles_lowerAffix hC hna hnb
    (settles_substring (hC.self hna) (settles_extreme (.inr rfl) ?_) hsize))
  exact forall_mem_cons.2 ⟨settles_int 0, forall_mem_singleton.2
    (settles_arith_null hsize (settles_length (hC.self hnb)))⟩

theorem settles_find (hc : SettlesAt s n c)
    (ho : SettlesAt s n other) : SettlesAt s n (find a b c other) := by
  refine settles_node rfl trivial rfl (forall_mem_cons.2 ⟨ha, forall_mem_three hb hc ho⟩)
    fun f hf _ _ => ?_
  simp only [children, forall_mem_cons] at hf
  obtain ⟨hna, hnb, hnc, hno, -⟩ := hf
  have hindex := settles_indexOf (hC.self hna) (hC.self hnb) (hC.self hnc)
  refine resolves_again (hC.settles_when (hC.or ?_) (hC.self hno) hindex)
  exact forall_mem_cons.2 ⟨hC.missing hna, forall_mem_cons.2 ⟨hC.missing hnb,
    forall_mem_singleton.2 (hC.settles_basic rfl hindex (settles_int _))⟩⟩

end

theorem settles_between {d : Expr} (ha : SettlesAt s n a)
    (hb : SettlesAt s n b) (hc : SettlesAt s n c)
    (hd : SettlesAt s n d) (ho : SettlesAt s n other) : SettlesAt s n (between a b c d other) := by
  refine settles_node rfl trivial rfl (forall_mem_cons.2 ⟨ha, forall_mem_cons.2
    ⟨hb, forall_mem_three hc hd ho⟩⟩) fun f hf _ _ => ?_
  simp only [children, forall_mem_cons] at hf
  obtain ⟨hnt, hnop, hncl, hns, hno, -⟩ := hf
  rw [mapChildren]
  generalize f a = text, f b = opening, f c = closing, f d = start, f other = o' at *
  have htext := hC.self hnt
  have hopened := settles_indexOf htext (hC.self hnop) (hC.self hns)
  have hbegin : SettlesAt s n (if opening.isNull then start
        else plus (indexOf text opening start) (length opening)) := by
    split
    · exact hC.self hns
    · exact settles_fold_null (forall_mem_cons.2 ⟨hopened,
        forall_mem_singleton.2 (settles_length (hC.self hnop))⟩)
  have hclosed := settles_indexOf htext (hC.self hncl) hbegin
  have hfailed : ∀ (side found : Expr), SettlesAt s n found →
      ∀ t ∈ (if side.isNull then [] else [binary .basicEq found (int (-1))]),
        SettlesAt s n t := by
    intro side found hfound
    split
    · exact forall_mem_nil _
    · exact forall_mem_singleton.2 (hC.settles_basic rfl hfound (settles_int _))
  rw [reduce]
  refine resolves_again (hC.settles_when (hC.or ?_) (hC.self hno)
    (settles_substring htext hbegin ?_))
  · rw [forall_mem_append, forall_mem_append, forall_mem_singleton]
    exact ⟨⟨hC.missing hnt, hfailed _ _ hopened⟩, hfailed _ _ hclosed⟩
  · split
    · exact settles_length htext
    · exact hclosed

end

section

variable {type : DataType} {x : Expr}

theorem normal_convertOnce (hx : Normal s n x)
    (hopen : x.isConstant = false) (htype : type ≠ .boolean)
    (hflat : x.isNary .coalesce = false) : Normal s n (convertOnce type x) := by
  unfold convertOnce
  dsimp only
  split
  · exact hx
  next hwide =>
    exact normal_node rfl ⟨htype, hflat, not_eq_true _ ▸ hwide⟩
      (by simpa [children] using hopen) (forall_mem_singleton.2 hx)

theorem reduceConvert_flat (htype : type ≠ .boolean)
    (hflat : x.isNary .coalesce = false) : reduceConvert type x = .done (convertOnce type x) := by
  unfold reduceConvert
  rw [if_neg (by simpa using htype)]
  split
  · cases hflat
  · rfl

theorem settles_convert_of (hC : Closed s n (Normal s n)) (hx : SettlesAt s n x)
    (hterms : ∀ terms, Normal s n (coalesce terms) → type ≠ .boolean →
      ∀ t ∈ terms, SettlesAt s n (unary (.convert type) t)) :
    SettlesAt s n (unary (.convert type) x) := by
  refine settles_unary hx (fun x' hnormal hopen => ?_)
  rw [reduceUnary]
  by_cases htype : type = .boolean
  · unfold reduceConvert
    rw [if_pos (by rw [htype]; rfl)]
    split
    · exact resolves_done hnormal
    · exact resolves_again (hC.settles_present hnormal)
  · by_cases hflat : x'.isNary .coalesce
    · cases x' with
      | nary op terms =>
        rw [isNary, beq_iff_eq] at hflat
        subst hflat
        unfold reduceConvert
        rw [if_neg (by simpa using htype)]
        refine resolves_again (settles_coalesce (fun t ht => ?_))
        obtain ⟨u, hu, rfl⟩ := mem_map.1 ht
        exact hterms terms hnormal htype u hu
      | _ => cases hflat
    · rw [not_eq_true] at hflat
      rw [reduceConvert_flat htype hflat]
      exact resolves_done (normal_convertOnce hnormal hopen htype hflat)

/-- The levels at which conversions settle as well. -/
structure Stable (s : Schema) (n : Nat) : Prop extends Closed s n (Normal s n) where
  convert : ∀ {type x}, SettlesAt s n x → SettlesAt s n (unary (.convert type) x)

theorem stable_zero : Stable s 0 where
  toClosed := closed_zero
  convert := by
    refine fun hx => settles_convert_of closed_zero hx (fun terms hterms htype t ht => ?_)
    have ht' : Normal s 0 t := hterms.child ht
    refine settles_unary_of_pass (pass?_of_normal ht') ht' (fun hopen => ?_)
    have hflat := hterms.shape.2.2 t ht
    rw [reduceUnary, reduceConvert_flat htype hflat]
    exact resolves_done (normal_convertOnce ht' hopen htype hflat)

end

end Snowbank.Expr
