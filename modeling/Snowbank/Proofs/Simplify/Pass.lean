import Snowbank.Proofs.Simplify.Normal

/-!
# One Pass

How a pass goes through a node: the operands first, then the rules for the
node, and then whatever these ask to be simplified again.

A pass is a function that may have no result, so a statement about it says
that there is one and what is known of it. The lemmas here take that from the
operands of a node to the node, up to what the rules do there.

## Main definitions

* `Settles`: A pass has a result with a property.
* `Resolves`: What the rules give has a result with a property.

## Theorems

* `settles_of_children`: A node settles when its operands and the rules do.
* `pass?_of_normal`: A pass changes nothing in a normal form.
-/

namespace Snowbank.Expr

open List
open Option (bind_eq_bind bind_eq_some_iff bind_some some)

variable {s : Schema} {P : Expr → Prop} {e : Expr} {α β : Type} {f : α → Option β} {xs : List α}
  {ys : List β}
variable {e r : Expr} {Q : Expr → Prop} {n : Nat}

/-- The node is replaced by what the schema says of its path. -/
def isBound : Expr → Bool
  | var _ _ | rows _ 0 => true
  | _ => false

/-- What becomes of a node that the rules have seen. -/
def resolve (s : Schema) : Reduct → Option Expr
  | .done e => some e
  | .again e => pass? s e

/-- A pass is a pass over the operands, and then the rules. -/
theorem pass?_eq (s : Schema) (h : e.isBound = false) :
    pass? s e = (passOperands? s e).bind fun e' => resolve s e'.rewrite := by
  rw [pass?]
  · cases passOperands? s e with
    | none => rfl
    | some e' =>
      cases e'.rewrite with
      | done r | again r => rfl
  · rintro path type rfl
    cases h
  · rintro path rfl
    cases h

/-- A pass has a result with a property. -/
def Settles (s : Schema) (P : Expr → Prop) (e : Expr) : Prop := ∃ r, pass? s e = some r ∧ P r

/-- What the rules give has a result with a property. -/
def Resolves (s : Schema) (P : Expr → Prop) (d : Reduct) : Prop := ∃ r, resolve s d = some r ∧ P r

theorem Settles.imp (h : Settles s P e) (hpq : ∀ r, P r → Q r) : Settles s Q e := by
  obtain ⟨r, hr, hp⟩ := h
  exact ⟨r, hr, hpq r hp⟩

theorem resolves_done (h : P e) : Resolves s P (.done e) :=
  ⟨e, rfl, h⟩

theorem resolves_again (h : Settles s P e) : Resolves s P (.again e) :=
  h

/-- A node settles when the rules settle it once its operands are simple. -/
theorem settles_of_operands {e' : Expr} (h : e.isBound = false)
    (hpass : passOperands? s e = some e') (hrules : Resolves s P e'.rewrite) : Settles s P e := by
  obtain ⟨r, hr, hp⟩ := hrules
  refine ⟨r, ?_, hp⟩
  rw [pass?_eq s h, hpass, bind_some, hr]

theorem forall₂_of_mapM {R : α → β → Prop} (h : xs.mapM f = some ys)
    (hf : ∀ x ∈ xs, ∀ y, f x = some y → R x y) :
    Forall₂ R xs ys := by
  induction xs generalizing ys with
  | nil =>
    cases h
    exact .nil
  | cons x rest ih =>
    rw [forall_mem_cons] at hf
    rw [mapM_cons] at h
    obtain ⟨y, hy, h⟩ := bind_eq_some_iff.1 h
    obtain ⟨rest', hrest, h⟩ := bind_eq_some_iff.1 h
    cases h
    exact .cons (hf.1 y hy) (ih hrest hf.2)

theorem eq_map_of_mapM {g : α → β}
    (h : xs.mapM f = some ys) (hg : ∀ x y, f x = some y → y = g x) : ys = xs.map g := by
  have hrel : Forall₂ (fun x y => y = g x) xs ys := forall₂_of_mapM h fun x _ => hg x
  clear h
  induction hrel with
  | nil => rfl
  | cons hxy _ ih => rw [hxy, ih, map_cons]

theorem exists_of_mapM (h : xs.mapM f = some ys) : ∀ x ∈ xs, ∃ y, f x = some y := by
  have hrel : Forall₂ (fun x y => f x = some y) xs ys := forall₂_of_mapM h fun _ _ _ h => h
  clear h
  induction hrel with
  | nil => exact forall_mem_nil _
  | cons hxy _ ih => exact forall_mem_cons.2 ⟨⟨_, hxy⟩, ih⟩

theorem mapM_eq_map {g : α → β} (h : ∀ x ∈ xs, f x = some (g x)) : xs.mapM f = some (xs.map g) := by
  induction xs with
  | nil => rfl
  | cons x rest ih =>
    rw [forall_mem_cons] at h
    rw [mapM_cons, h.1, ih h.2]
    rfl

/-- A statement about passes holds when it holds of what the schema says of a path, and goes from
    the operands of a node, and from what the rules ask to be simplified again, to the node. -/
theorem pass?_induction {P : Expr → Expr → Prop}
    (hvar : ∀ path type, P (var path type) (bind s path type))
    (hrows : ∀ path, P (rows path 0) (bind s path .object))
    (hnode : ∀ (f : Expr → Expr) (e r : Expr), e.isBound = false → (∀ c ∈ e.children, P c (f c)) →
      (∀ x, (e.mapChildren f).rewrite = .done x → r = x) →
      (∀ x, (e.mapChildren f).rewrite = .again x → P x r) → P e r)
    (h : pass? s e = some r) : P e r := by
  refine pass?.partial_correctness s P
    (fun e r => ∃ f, r = e.mapChildren f ∧ ∀ c ∈ e.children, P c (f c)) ?_ ?_ e r h
  · intro pass operands hpass hoperands e r hr
    split at hr
    · cases hr
      exact hvar _ _
    · cases hr
      exact hrows _
    next hvar hrows =>
      obtain ⟨e', he', hr⟩ := bind_eq_some_iff.1 hr
      obtain ⟨f, rfl, hkids⟩ := hoperands e e' he'
      have hbound : e.isBound = false := by
        unfold isBound
        split
        · exact absurd rfl (hvar _ _)
        · exact absurd rfl (hrows _)
        · rfl
      refine hnode f e r hbound hkids (fun x hx => ?_) (fun x hx => ?_)
      · rw [hx] at hr
        cases hr
        rfl
      · rw [hx] at hr
        exact hpass x r hr
  · intro pass hpass e r hr
    -- every operand is replaced by what the pass gives for it
    refine ⟨fun c => (pass c).getD c, ?_⟩
    have hone : ∀ {x y : Expr}, pass x = some y → y = (pass x).getD x ∧ P x ((pass x).getD x) := by
      intro x y hxy
      rw [hxy]
      exact ⟨rfl, hpass x y hxy⟩
    have hlist : ∀ {terms simple : List Expr}, terms.mapM pass = some simple →
        simple = terms.map (fun c => (pass c).getD c) ∧ ∀ t ∈ terms, P t ((pass t).getD t) := by
      intro terms simple hsimple
      refine ⟨eq_map_of_mapM hsimple fun x y hxy => (hone hxy).1, fun t ht => ?_⟩
      obtain ⟨y, hty⟩ := exists_of_mapM hsimple t ht
      exact (hone hty).2
    have hnamed : ∀ {α : Type} {fields simple : List (α × Expr)},
        (fields.mapM fun f => do return (f.1, ← pass f.2)) = some simple →
        simple = fields.map (fun f => (f.1, (pass f.2).getD f.2)) ∧
          ∀ v ∈ fields.map Prod.snd, P v ((pass v).getD v) := by
      intro α fields simple hsimple
      refine ⟨eq_map_of_mapM hsimple fun f g hfg => ?_, fun v hv => ?_⟩
      · obtain ⟨v, hv, hfg⟩ := bind_eq_some_iff.1 hfg
        cases hfg
        exact congrArg (Prod.mk f.1) (hone hv).1
      · obtain ⟨f, hf, rfl⟩ := mem_map.1 hv
        obtain ⟨g, hfg⟩ := exists_of_mapM hsimple f hf
        obtain ⟨v, hv, -⟩ := bind_eq_some_iff.1 hfg
        exact (hone hv).2
    cases e with
    | nary op terms =>
      obtain ⟨simple, hsimple, hr⟩ := bind_eq_some_iff.1 hr
      cases hr
      exact ⟨congrArg _ (hlist hsimple).1, (hlist hsimple).2⟩
    | case clauses other =>
      obtain ⟨simple, hsimple, hr⟩ := bind_eq_some_iff.1 hr
      obtain ⟨other', hother, hr⟩ := bind_eq_some_iff.1 hr
      cases hr
      refine ⟨congrArg₂ _ (eq_map_of_mapM hsimple fun c d hcd => ?_) (hone hother).1,
        forall_mem_children.2 ⟨fun c hc => ?_, (hone hother).2⟩⟩
      · obtain ⟨cond, hcond, hcd⟩ := bind_eq_some_iff.1 hcd
        obtain ⟨value, hvalue, hcd⟩ := bind_eq_some_iff.1 hcd
        cases hcd
        exact congrArg₂ Prod.mk (hone hcond).1 (hone hvalue).1
      · obtain ⟨d, hcd⟩ := exists_of_mapM hsimple c hc
        obtain ⟨cond, hcond, hcd⟩ := bind_eq_some_iff.1 hcd
        obtain ⟨value, hvalue, hcd⟩ := bind_eq_some_iff.1 hcd
        exact ⟨(hone hcond).2, (hone hvalue).2⟩
    | range x bounds =>
      obtain ⟨x', hx, hr⟩ := bind_eq_some_iff.1 hr
      obtain ⟨simple, hsimple, hr⟩ := bind_eq_some_iff.1 hr
      cases hr
      exact ⟨congrArg₂ _ (hone hx).1 (hnamed hsimple).1,
        forall_mem_cons.2 ⟨(hone hx).2, (hnamed hsimple).2⟩⟩
    | select fields =>
      obtain ⟨simple, hsimple, hr⟩ := bind_eq_some_iff.1 hr
      cases hr
      exact ⟨congrArg _ (hnamed hsimple).1, (hnamed hsimple).2⟩
    | fold op terms nulls other | concat terms separator other =>
      obtain ⟨simple, hsimple, hr⟩ := bind_eq_some_iff.1 hr
      obtain ⟨other', hother, hr⟩ := bind_eq_some_iff.1 hr
      cases hr
      refine ⟨?_, forall_mem_append.2
        ⟨(hlist hsimple).2, forall_mem_singleton.2 (hone hother).2⟩⟩
      rw [mapChildren, ← (hlist hsimple).1, ← (hone hother).1]
    | const | date | var | offset | script | leaves | rows =>
      cases hr
      exact ⟨rfl, forall_mem_nil _⟩
    | unary | binary | when | member | matching | arith | find | between | indexOf | substring =>
      -- a fixed count of operands, one pass after another
      simp only [bind_eq_bind, bind_eq_some_iff, Option.pure_def, some.injEq] at hr
      simp only [children, forall_mem_cons, mapChildren]
      grind

section

variable {s : Schema} {R : Expr → Expr → Prop} (hrefl : ∀ e, R e e)
  (htrans : ∀ {e m r}, R e m → R m r → R e r) (hpass : ∀ {e r}, pass? s e = some r → R e r)

include hrefl htrans hpass

theorem settle?_induction (h : settle? s n e = some r) : R e r := by
  induction n generalizing e with
  | zero =>
    cases h
    exact hrefl _
  | succ n ih =>
    obtain ⟨next, hnext, h⟩ := bind_eq_some_iff.1 h
    split at h
    · cases h
      exact hrefl _
    · exact htrans (hpass hnext) (ih h)

/-- What a pass does, simplifying does. Where passes have no result it changes nothing. -/
theorem simplify_induction (e : Expr) : R e (e.simplify s) := by
  rw [simplify]
  cases hr : (pass? s e).bind (settle? s (maxPasses - 1)) with
  | none => exact hrefl e
  | some r =>
    obtain ⟨next, hnext, hr⟩ := bind_eq_some_iff.1 hr
    exact htrans (hpass hnext) (settle?_induction hrefl htrans hpass hr)

end

theorem passOperands?_eq_mapChildren {f : Expr → Expr}
    (h : ∀ c ∈ e.children, pass? s c = some (f c)) :
    passOperands? s e = some (e.mapChildren f) := by
  cases e with
  | nary op terms =>
    rw [children] at h
    rw [passOperands?, mapM_eq_map h]
    rfl
  | case clauses other =>
    rw [forall_mem_children] at h
    rw [passOperands?, mapM_eq_map (g := fun c => (f c.1, f c.2)), h.2]
    · rfl
    · intro clause hmem
      dsimp only
      rw [(h.1 clause hmem).1, (h.1 clause hmem).2]
      rfl
  | range x bounds =>
    simp only [children, forall_mem_cons] at h
    rw [passOperands?, mapM_eq_map (g := fun b => (b.1, f b.2)), h.1]
    · rfl
    · intro bound hmem
      dsimp only
      rw [h.2 bound.2 (mem_map_of_mem hmem)]
      rfl
  | select fields =>
    rw [passOperands?, mapM_eq_map (g := fun field => (field.1, f field.2))]
    · rfl
    · intro field hmem
      dsimp only
      rw [h field.2 (mem_map_of_mem hmem)]
      rfl
  | fold op terms nulls other | concat terms separator other =>
    simp only [children, forall_mem_append, forall_mem_singleton] at h
    rw [passOperands?, mapM_eq_map h.1, h.2]
    rfl
  | const | date | var | offset | script | leaves | rows =>
    rw [passOperands?] <;> intros <;> first | rfl | contradiction
  | unary | member | matching | binary | when | arith | indexOf | substring | find | between =>
    simp only [children, forall_mem_cons] at h
    rw [passOperands?]
    simp only [h]
    rfl

/-- Operands that a pass does not change leave the node as it is. -/
theorem passOperands?_eq_self
    (h : ∀ c ∈ e.children, pass? s c = some c) : passOperands? s e = some e := by
  rw [passOperands?_eq_mapChildren (f := id) h, mapChildren_eq_self (f := id) fun _ _ => rfl]

theorem pass?_const (s : Schema) (v : Json) : pass? s (const v) = some (const v) := by
  rw [pass?_eq s rfl, passOperands?_eq_self (forall_mem_nil _)]
  rfl

/-- A node settles when its operands do and the rules settle what they leave.
    An operand that a pass does not change is left as it is. -/
theorem settles_of_children (hbound : e.isBound = false)
    (h : ∀ c ∈ e.children, Settles s P c) (hrules : ∀ f : Expr → Expr, (∀ c ∈ e.children, P (f c)) →
      (∀ c, pass? s c = some c → f c = c) → Resolves s Q (e.mapChildren f).rewrite) :
    Settles s Q e := by
  have hpass : ∀ c ∈ e.children, pass? s c = some ((pass? s c).getD c) ∧
    P ((pass? s c).getD c) := by
    intro c hc
    obtain ⟨r, hr, hp⟩ := h c hc
    rw [hr]
    exact ⟨rfl, hp⟩
  exact settles_of_operands hbound (passOperands?_eq_mapChildren fun c hc => (hpass c hc).1)
    (hrules _ (fun c hc => (hpass c hc).2) fun c hc => by rw [hc]; rfl)

theorem pass?_of_normal (h : Normal s 0 e) : pass? s e = some e := by
  generalize hn : 0 = n at h
  induction h with
  | late => exact absurd hn (Nat.succ_ne_zero _).symm
  | @node n e level shape stays below ih =>
    have hoperands := passOperands?_eq_self (fun c hc => ih c hc hn)
    by_cases hbound : e.isBound
    · cases e with
      | var path type =>
        rw [pass?]
        exact congrArg some shape
      | rows path shift =>
        unfold isBound at hbound
        split at hbound
        next heq => cases heq
        next heq =>
          cases heq
          exact absurd rfl shape
        · cases hbound
      | _ => cases hbound
    · rw [pass?_eq s (Bool.not_eq_true _ ▸ hbound), hoperands, bind_some,
        rewrite_of_shape shape stays]
      rfl

theorem settle?_of_pass (h : pass? s e = some e) (n : Nat) : settle? s n e = some e := by
  induction n with
  | zero => rfl
  | succ n ih =>
    rw [settle?, h]
    change (if (e == e) = true then some e else settle? s n e) = some e
    rw [ih, ite_self]

theorem simplify_of_pass (h : pass? s e = some e) : e.simplify s = e := by
  rw [simplify, h, bind_some, settle?_of_pass h]
  rfl

theorem pass?_var {path : Path} {type : DataType}
    (h : Normal s n (var path type)) : pass? s (var path type) = some (var path type) := by
  rw [pass?]
  exact congrArg some h.shape

/-- Either all operands are constants and the node is folded, or the rules are applied to it. -/
theorem resolves_rewrite (hdef : e.Definite)
    (hfold : e.isFoldable) (hconst : ∀ {v : Json}, v.Definite → P (const v))
    (h : e.children.all isConstant = false → Resolves s P e.reduce) : Resolves s P e.rewrite := by
  rw [rewrite, hfold, Bool.true_and]
  by_cases hall : e.children.all isConstant
  · rw [if_pos hall]
    exact resolves_done (hconst (definite_evaluate_null hdef))
  · rw [if_neg hall]
    exact h (Bool.not_eq_true _ ▸ hall)

end Snowbank.Expr
