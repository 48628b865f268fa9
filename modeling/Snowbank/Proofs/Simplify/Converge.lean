import Snowbank.Proofs.Simplify.Lowering

/-!
# Simplifying Comes to an End

Repeated passes arrive at an expression that a further pass does not change. How
many passes that takes is bounded by how deep choices are nested: each pass
lowers the level of a normal form by one, and the first pass leaves a level no
greater than that depth.

That every level is closed is shown by induction on the level. What the rules
at one level ask to be simplified again is a normal form of that level, on
which a pass settles one level lower, where everything is known already.

## Theorems

* `settles_of_normal`: A pass lowers the level of a normal form.
* `settles_of_choiceDepth`: A first pass leaves a level bounded by the depth.
-/

namespace Snowbank.Expr

open List Bool

variable {s : Schema} {n : Nat}

theorem settles_leaf {e : Expr} (hbound : e.isBound = false) (hleaf : e.children = [])
    (hfold : e.isFoldable = false) (hreduce : e.reduce = .done e) (hshape : Shape s e)
    (hcase : e.isCase = false) : SettlesAt s n e := by
  refine settles_of_operands hbound (passOperands?_eq_self (fun c hc => ?_)) ?_
  · rw [hleaf] at hc
    cases hc
  · rw [rewrite, hfold, Bool.false_and, if_neg Bool.false_ne_true, hreduce]
    refine resolves_done (.node (fun h => ?_) hshape (fun h => ?_) (fun c hc => ?_))
    · rw [hcase] at h
      cases h
    · rw [hfold] at h
      cases h
    · rw [hleaf] at hc
      cases hc

section

variable (hs : s.Stored) (hS : Stable s n)

include hs hS

variable {e : Expr}

theorem settles_plain (hplain : e.isChoice = false) (hown : e.OwnDefinite)
    (h : ∀ c ∈ e.children, SettlesAt s n c) : SettlesAt s n e := by
  have hC := hS.toClosed
  rw [forall_mem_children] at h
  cases e with
  | const v => exact settles_const (Normal.ofConst hown)
  | date => exact settles_leaf rfl rfl rfl rfl hown rfl
  | offset | script | leaves => exact settles_leaf rfl rfl rfl rfl trivial rfl
  | var path type => exact settles_var hs path type
  -- without a shift the rows are a variable
  | rows path shift =>
    by_cases hshift : shift = 0
    · subst hshift
      exact ⟨bind s path .object, by rw [pass?], normal_bind hs path .object⟩
    · refine settles_leaf ?_ rfl rfl rfl hshift rfl
      unfold isBound
      split
      next heq => cases heq
      next heq =>
        cases heq
        exact absurd rfl hshift
      · rfl
  | unary op x =>
    cases op with
    | not => exact hC.not h
    | missing => exact hC.settles_missing h
    | present =>
      exact settles_unary h
        (fun x' hnormal _ => resolves_again (hC.not (hC.settles_missing (hC.self hnormal))))
    | first => exact settles_end (.inl rfl) h
    | last => exact settles_end (.inr rfl) h
    | length => exact settles_length h
    | convert type => exact hS.convert h
    | isType type => exact settles_isType hC h
  | binary op a b =>
    obtain ⟨ha, hb⟩ := h
    cases op with
    | eq | ne => cases hplain
    | compare op => exact settles_compare hC ha hb
    | side op => exact settles_side hC ha hb
    | split => exact settles_split ha hb
    | startsWith => exact settles_startsWith hC ha hb
    | endsWith => exact settles_endsWith hC ha hb
    | get => exact settles_get hs ha hb
    | basicEq | basicCompare => exact hC.settles_basic rfl ha hb
  | nary op terms =>
    cases op with
    | and => exact hC.and h
    | or => exact hC.or h
    | coalesce => exact settles_coalesce h
    | min => exact settles_extreme (.inl rfl) h
    | max => exact settles_extreme (.inr rfl) h
    | count => exact settles_count h
    | tuple => exact settles_tuple h
  | when cond x y => exact hC.settles_when h.1 h.2.1 h.2.2
  | case | member => cases hplain
  | matching x pattern => exact settles_matching pattern h
  | range x bounds => exact settles_range hC h.1 (forall_mem_map.2 h.2)
  | arith op a b other => exact settles_arith hC h.1 h.2.1 h.2.2
  | fold op terms nulls other => exact settles_fold hC h.1 h.2
  | concat terms separator other => exact settles_concat hC h.1 h.2
  | find a b c other => exact settles_find hC h.1 h.2.1 h.2.2.1 h.2.2.2
  | between a b c d other => exact settles_between hC h.1 h.2.1 h.2.2.1 h.2.2.2.1 h.2.2.2.2
  | select fields => exact settles_select (forall_mem_map.2 h)
  | indexOf a b c => exact settles_indexOf h.1 h.2.1 h.2.2
  | substring a b c => exact settles_substring h.1 h.2.1 h.2.2

/-- A node of normal shape that is no choice of clauses settles when its
    operands do, at the same level. -/
theorem settles_shaped (hcase : e.isCase = false) (hshape : Shape s e)
    (h : ∀ c ∈ e.children, SettlesAt s n c) : SettlesAt s n e := by
  cases hchoice : e.isChoice with
  | false =>
    refine settles_plain hs hS hchoice ?_ h
    cases e with
    | const | date => exact hshape
    | member => cases hchoice
    | _ => trivial
  | true =>
    cases e with
    | case => cases hcase
    | member x set =>
      obtain ⟨x', hx, hnx⟩ := h x mem_cons_self
      exact settles_member_of_pass hx hnx (fun v hv => (hshape.2.1 v hv).1)
        (fun hopen => resolves_member_several hS.toClosed hnx hopen hshape.1 hshape.2.1)
    | binary op a b =>
      cases op with
      | eq | ne => exact hshape.elim
      | _ => cases hchoice
    | _ => cases hchoice

/-- A pass lowers the level of a normal form, if it does so for choices of clauses. -/
theorem settles_of_normal_succ (hlate : ∀ {clauses other}, Shape s (case clauses other) →
      (∀ c ∈ (case clauses other).children, Normal s n c) →
      SettlesAt s n (case clauses other)) (h : Normal s (n + 1) e) : SettlesAt s n e := by
  generalize hm : n + 1 = m at h
  induction h with
  | @node m e level shape stays below ih =>
    refine settles_shaped hs hS ?_ shape (fun c hc => ih c hc hm)
    rw [← not_eq_true]
    intro hcase
    rw [level hcase] at hm
    exact absurd hm (Nat.succ_ne_zero n)
  | @late m clauses other shape below ih =>
    cases hm
    exact hlate shape below

omit hs in
/-- The test of a normal form settles one level lower, like the form. -/
theorem settles_missing_of_normal_succ
    (hstep : ∀ {x}, Normal s (n + 1) x → SettlesAt s n x) (h : Normal s (n + 1) e) :
    SettlesAt s n (missingPlain e) := by
  have hC := hS.toClosed
  generalize hm : n + 1 = m at h
  induction h with
  | @node m e level shape stays below ih =>
    cases hm
    exact hC.settles_missingPlain shape
      (fun _ => hC.settles_missing (hstep (.node level shape stays below)))
      (fun c hc => ⟨hstep (below c hc), ih c hc rfl⟩)
  | @late m clauses other shape below ih =>
    cases hm
    exact hC.settles_missingPlain shape (fun _ => hC.settles_missing (hstep (.late shape below)))
      (fun c hc => ⟨hC.self (below c hc), hC.missing (below c hc)⟩)

omit hs in
theorem stable_succ (hstep : ∀ {x}, Normal s (n + 1) x → SettlesAt s n x) : Stable s (n + 1) := by
  have hC := hS.toClosed
  have hsucc : ∀ {e : Expr}, SettlesAt s n e → SettlesAt s (n + 1) e :=
    fun h => h.imp (fun _ h => h.succ)
  have hmissing : ∀ {x : Expr}, Normal s (n + 1) x → SettlesAt s n (missingPlain x) :=
    fun h => settles_missing_of_normal_succ hS hstep h
  -- what a rule asks to be simplified again settles a level lower, by `hstep`
  have hclosed : Closed s (n + 1) (Normal s (n + 1)) :=
    { toForms := forms_normal
      self := fun h => hsucc (hstep h)
      missing := fun h => hsucc (hmissing h)
      and := by
        intro terms h
        refine settles_of_children rfl h fun _ hf _ => forms_normal.resolves_and
          (forall_mem_map.2 hf) fun kept hkept _ _ => hsucc (hC.or (fun t ht => ?_))
        obtain ⟨choice, hchoice, rfl⟩ := mem_map.1 ht
        obtain ⟨start, hstart, picks, rfl, hpicks⟩ := picks_of_mem_multiplyOut hchoice
        rw [mem_singleton.1 hstart, nil_append]
        exact hC.and (fun t ht => hstep (forms_normal.picks_mem hkept hpicks t ht))
      not := by
        rintro x ⟨x', hx, hnormal⟩
        have hterms : ∀ terms : List Expr, x'.children = terms →
            ∀ t ∈ terms.map not, SettlesAt s n t := by
          intro terms heq t ht
          obtain ⟨c, hc, rfl⟩ := mem_map.1 ht
          exact hC.not (hstep (hnormal.child (heq ▸ hc)))
        exact settles_of_operands rfl (by rw [passOperands?, hx]; rfl)
          (forms_normal.resolves_not hnormal
            (fun terms heq => hsucc (hC.or (hterms terms (heq ▸ rfl))))
            (fun terms heq => hsucc (hC.and (hterms terms (heq ▸ rfl))))
            (fun _ => hsucc (hmissing hnormal))) }
  exact
    { toClosed := hclosed
      convert := fun hx => settles_convert_of hclosed hx (fun terms hterms _ t ht =>
        hsucc (hS.convert (hstep (hterms.child ht)))) }

end

section

variable (hs : s.Stored)

variable {n : Nat} {e : Expr}

theorem settles_case_zero {clauses : List (Expr × Expr)} {other : Expr}
    (hshape : Shape s (case clauses other))
    (h : ∀ c ∈ (case clauses other).children, Normal s 0 c) :
    SettlesAt s 0 (case clauses other) := by
  refine settles_of_rules rfl (passOperands?_eq_self (fun c hc => pass?_of_normal (h c hc)))
    trivial rfl h (fun hopen => ?_)
  rw [reduce, reduceCase_of_shape hshape]
  exact resolves_done (.node (fun _ => rfl) hshape (fun _ => hopen) h)

include hs

/-- Every level is stable, and a pass leads from each to the one below. -/
theorem stable_and_step (n : Nat) : Stable s n ∧ ∀ {x}, Normal s (n + 1) x → SettlesAt s n x := by
  induction n with
  | zero => exact ⟨stable_zero, fun h => settles_of_normal_succ hs stable_zero settles_case_zero h⟩
  | succ n ih =>
    obtain ⟨hS, hstep⟩ := ih
    have hS' := stable_succ hS hstep
    refine ⟨hS', fun h => settles_of_normal_succ hs hS' (fun {clauses other} _ hbelow => ?_) h⟩
    rw [forall_mem_children] at hbelow
    exact settles_case hS.toClosed
      (fun c hc => ⟨hstep (hbelow.1 c hc).1, hstep (hbelow.1 c hc).2⟩) (hstep hbelow.2)

theorem stable (n : Nat) : Stable s n := (stable_and_step hs n).1

theorem settles_of_normal (h : Normal s (n + 1) e) : SettlesAt s n e :=
  (stable_and_step hs n).2 h

theorem settles_choice (hchoice : e.isChoice) (hown : e.OwnDefinite)
    (h : ∀ c ∈ e.children, SettlesAt s n c) : SettlesAt s (n + 1) e := by
  have hC := (stable hs n).toClosed
  cases e with
  | case clauses other =>
    rw [forall_mem_children] at h
    exact settles_case hC h.1 h.2
  | member x set => exact settles_member hC (h x mem_cons_self) hown
  | binary op a b =>
    simp only [children, forall_mem_cons] at h
    obtain ⟨ha, hb, -⟩ := h
    cases op with
    | eq => exact settles_eq hC ha hb
    | ne =>
      exact settles_binary ha hb (fun a' b' hna hnb _ => resolves_again
        ((stable hs (n + 1)).not (settles_eq hC (hC.self hna) (hC.self hnb))))
    | _ => cases hchoice
  | _ => cases hchoice

theorem settles_of_choiceDepth (he : e.Definite) (hn : e.choiceDepth ≤ n) : SettlesAt s n e := by
  induction e using induction_children generalizing n with
  | step e ih =>
    rw [definite_iff] at he
    cases hchoice : e.isChoice with
    | false =>
      refine settles_plain hs (stable hs n) hchoice he.1 (fun c hc => ih c hc (he.2 c hc) ?_)
      have := choiceDepth_child hc
      omega
    | true =>
      have hpos := e.isChoice_le_choiceDepth
      rw [hchoice, toNat_true] at hpos
      -- the operands settle one level lower, so there has to be one
      cases n with
      | zero => omega
      | succ n =>
        refine settles_choice hs hchoice he.1 (fun c hc => ih c hc (he.2 c hc) ?_)
        have hdeep := choiceDepth_child hc
        rw [hchoice, toNat_true] at hdeep
        omega

end

end Snowbank.Expr
