import Snowbank.Proofs.Expr.Missing
import Snowbank.Proofs.Number.Whole
import Snowbank.Proofs.Simplify.Rules

/-!
# Sums and Products

Simplifying drops the terms of a sum that are zero and the terms of a product
that are one, and moves the value to take instead into a choice. Values stay as
they are where a number is left to stand for the terms that were dropped, and
where the total, if there is a value to take instead of none, is a number.

Doubles are added as they are: a zero that is left out changes nothing but the
sign of a sum that is itself zero, and that sign is not written.

## Main definitions

* `kept`: The terms that do not leave every result as it is.
* `Stands`: A number stands for the terms that are dropped.

## Theorems

* `ofFloat_total`: Numbers that change nothing can be left out of a total.
* `evaluate_simplify_fold`: Simple sums and products keep their values.
-/

namespace Snowbank

open Float.Model

open List hiding set

namespace Double

open Float.Model (UnpackedFloat)
open Float.Model.Format (binary64)

variable {x y z : Float} {s : UnpackedFloat.Sign}

theorem pack_meaning (x : Float) : Float.ofModel (pack (meaning x)) = x := by
  obtain ⟨⟨⟨b⟩, hvalid⟩⟩ := x
  have hbits : UnpackedFloat.pack binary64 (UnpackedFloat.unpack binary64 b) = b :=
    UnpackedFloat.pack_unpack_of_valid hvalid (by decide)
  refine congrArg Float.ofModel ?_
  rw [mk.injEq]
  exact congrArg UInt64.ofBitVec hbits

theorem eq_of_meaning (h : meaning x = meaning y) : x = y := by
  rw [← pack_meaning x, h, pack_meaning]

/-- The doubles are one, or both are zero. -/
def Same (x y : Float) : Prop := x = y ∨ ∃ s t, meaning x = .zero s ∧ meaning y = .zero t

theorem same_of_beq (h : (x == y)) : Same x y :=
  (eq_or_zero_of_compare ((beq_iff x y).1 h)).imp_left eq_of_meaning

theorem add_eq {u : UnpackedFloat} (h : UnpackedFloat.add binary64 (meaning x) (meaning y) = u) :
    x + y = Float.ofModel (pack u) := by
  rw [← h]
  rfl

theorem add_of_zero (hy : meaning y = .zero s) : Same (x + y) x := by
  cases hx : meaning x with
  | zero t =>
    have hzero : ∃ r, UnpackedFloat.add binary64 (meaning x) (meaning y) = .zero r := by
      rw [hx, hy]
      cases t <;> cases s <;> exact ⟨_, rfl⟩
    obtain ⟨r, hr⟩ := hzero
    refine .inr ⟨r, t, ?_, hx⟩
    rw [add_eq hr]
    exact UnpackedFloat.unpack_packedZero
  | _ =>
    refine .inl ((add_eq ?_).trans (pack_meaning x))
    rw [hx, hy]
    rfl

theorem Same.trans (h : Same x y) (h' : Same y z) : Same x z := by
  rcases h with rfl | ⟨s, t, hx, hy⟩
  · exact h'
  · rcases h' with rfl | ⟨s', t', -, hz⟩
    · exact .inr ⟨s, t, hx, hy⟩
    · exact .inr ⟨s, t', hx, hz⟩

theorem Same.symm (h : Same x y) : Same y x := by
  rcases h with rfl | ⟨s, t, hx, hy⟩
  · exact .inl rfl
  · exact .inr ⟨t, s, hy, hx⟩

theorem zero_add (hx : meaning x = .zero s) (y : Float) : Same (x + y) y := by
  cases hy : meaning y with
  | zero t =>
    rcases add_of_zero (x := x) hy with heq | ⟨r, -, hr, -⟩
    · exact .inr ⟨s, t, by rw [heq, hx], hy⟩
    · exact .inr ⟨r, t, hr, hy⟩
  | _ =>
    refine .inl ((add_eq ?_).trans (pack_meaning y))
    rw [hx, hy]
    rfl

theorem Same.add (h : Same x z) (y : Float) : Same (x + y) (z + y) := by
  rcases h with rfl | ⟨s, t, hx, hz⟩
  · exact .inl rfl
  · exact (zero_add hx y).trans (zero_add hz y).symm

theorem mul_one (x : Float) : x * 1.0 = x := by
  suffices h : UnpackedFloat.mul binary64 (meaning x) (meaning 1.0) = meaning x by
    have hmul : x * 1.0 = Float.ofModel (pack
        (UnpackedFloat.mul binary64 (meaning x) (meaning 1.0))) := rfl
    rw [hmul, h, pack_meaning]
  have hone : meaning 1.0 = .finite .positive (2 ^ 52) (-52) (by decide) := rfl
  rw [hone]
  cases hfinite : x.isFinite with
  | true =>
    rcases meaning_cases hfinite with ⟨s, hx, -⟩ | ⟨s, m, e, hm, hx, -, hform⟩
    · rw [hx]
      cases s <;> rfl
    · have hexact : Exact m e := by
        rcases hform with hnormal | ⟨hlow, rfl⟩
        · exact hnormal.exact
        · exact ⟨hm, by omega, by decide, .inr rfl⟩
      rw [hx]
      refine Eq.trans ?_ (roundWithAccuracy_of_exact hexact s 52)
      cases s <;> rfl
  | false =>
    have hmeaning : (meaning x).isFinite = false := hfinite
    cases hx : meaning x with
    | notANumber => rfl
    | infinity s => cases s <;> rfl
    | _ => rw [hx] at hmeaning; cases hmeaning

theorem Same.ofFloat (h : Same x y) : Json.ofFloat x = Json.ofFloat y := by
  have hzero : ∀ {w s}, meaning w = .zero s → Json.ofFloat w = .int 0 := by
    intro w s hw
    have hcases : w = 0.0 ∨ w = -0.0 := by
      cases s with
      | positive => exact .inl (eq_of_meaning hw)
      | negative => exact .inr (eq_of_meaning hw)
    rcases hcases with rfl | rfl
    · have hint : ((0.0 : Float).isFinite && isWhole 0.0 && (0.0 : Float).abs < 9007199254740992.0)
          = true := by decide +kernel
      have hpart : wholePart 0.0 = 0 := by decide +kernel
      rw [Json.ofFloat, if_pos hint, hpart]
    · have hint : ((-0.0 : Float).isFinite && isWhole (-0.0) &&
          (-0.0 : Float).abs < 9007199254740992.0) := by decide +kernel
      have hpart : wholePart (-0.0) = 0 := by decide +kernel
      rw [Json.ofFloat, if_pos hint, hpart]
  rcases h with rfl | ⟨s, t, hx, hy⟩
  · rfl
  · rw [hzero hx, hzero hy]

end Double

namespace Fold

open Double

theorem same_foldl_add {xs : List Float} {x y : Float} (h : Same x y) :
    Same (xs.foldl (· + ·) x) ((xs.filter (!· == 0.0)).foldl (· + ·) y) := by
  induction xs generalizing x y with
  | nil => exact h
  | cons z rest ih =>
    rw [foldl_cons, filter_cons]
    cases hz : z == (0.0 : Float) with
    | true =>
      have hzero : ∃ s, meaning z = .zero s := by
        rcases same_of_beq hz with rfl | ⟨s, -, hs, -⟩
        · exact ⟨.positive, rfl⟩
        · exact ⟨s, hs⟩
      obtain ⟨s, hs⟩ := hzero
      exact ih ((add_of_zero hs).trans h)
    | false => exact ih (h.add z)

theorem foldl_mul_filter (xs : List Float) (x : Float) :
    xs.foldl (· * ·) x = (xs.filter (!· == 1.0)).foldl (· * ·) x := by
  induction xs generalizing x with
  | nil => rfl
  | cons z rest ih =>
    rw [foldl_cons, filter_cons]
    cases hz : z == (1.0 : Float) with
    | true =>
      have hone : z = 1.0 := by
        rcases same_of_beq hz with rfl | ⟨-, t, -, ht⟩
        · rfl
        · cases ht
      rw [hone, mul_one]
      exact ih x
    | false => exact ih (x * z)

theorem ofFloat_total (op : Fold) (xs : List Float) :
    Json.ofFloat (op.total (xs.filter (!· == op.identity))) = Json.ofFloat (op.total xs) := by
  cases op with
  | add => exact (same_foldl_add (.inl rfl)).ofFloat.symm
  | mul => exact congrArg Json.ofFloat (foldl_mul_filter xs 1.0).symm

/-- The value to take instead is taken when a term is no number, or with `nulls` when none is. -/
theorem apply_of_ne_nil {values : List Json} (h : values ≠ []) (op : Fold) (nulls : Bool)
    (other : Json) : op.apply nulls values other =
      if (if nulls then ∀ v ∈ values, v.toNumber? = none else ∃ v ∈ values, v.toNumber? = none) then
        other else .ofFloat (op.total (values.filterMap Json.toNumber?)) := by
  have hlength : (values.filterMap Json.toNumber?).length = values.length ↔
      ¬∃ v ∈ values, v.toNumber? = none := by
    rw [filterMap_length_eq_length]
    simp [Option.isSome_iff_ne_none]
  have hnone : values.filterMap Json.toNumber? = [] ↔ ∀ v ∈ values, v.toNumber? = none :=
    filterMap_eq_nil_iff
  refine if_congr ?_ rfl rfl
  cases nulls with
  | true => simp [hnone, h]
  | false =>
    have hsome : (∀ v ∈ values, v.toNumber? = none) → ∃ v ∈ values, v.toNumber? = none := by
      intro hall
      obtain ⟨v, hv⟩ := exists_mem_of_ne_nil values h
      exact ⟨v, hv, hall v hv⟩
    simp only [Bool.not_false, Bool.true_and, Bool.or_eq_true, bne_iff_ne, ne_eq, hlength, not_not,
      Bool.and_eq_true, List.isEmpty_iff, hnone, Bool.false_eq_true, if_false]
    exact or_iff_left_of_imp fun hboth => hsome hboth.1

end Fold

namespace Expr

variable {op : Fold} {nulls : Bool} {terms : List Expr} {d row : Json}

/-- A field or a number. -/
def IsSummand (e : Expr) : Prop := (∃ path, e = field path) ∨ ∃ n, e = const (.num n)

theorem IsSummand.pass? {e : Expr} (h : IsSummand e) : pass? .untyped e = some e := by
  rcases h with ⟨path, rfl⟩ | ⟨n, rfl⟩
  · unfold field
    rw [Expr.pass?]
    exact congrArg some (ite_self _)
  · exact pass?_const _ _

theorem passOperands?_fold (op : Fold) (nulls : Bool) (h : ∀ t ∈ terms, IsSummand t) (d : Json) :
    passOperands? .untyped (fold op terms nulls (const d)) = some (fold op terms nulls (const d)) :=
  passOperands?_eq_self (forall_mem_append.2 ⟨fun t ht => (h t ht).pass?,
    forall_mem_singleton.2 (pass?_const _ _)⟩)

theorem isNull_const (h : d.isMissing = false) : (const d).isNull = false := by
  cases d with
  | null => cases h
  | _ => rfl

theorem rewrite_fold (op : Fold) (nulls : Bool) (hopen : ∃ t ∈ terms, t.isConstant = false)
    (d : Json) : (fold op terms nulls (const d)).rewrite = reduceFold op terms nulls (const d) := by
  obtain ⟨t, ht, hvar⟩ := hopen
  have hall : (fold op terms nulls (const d)).children.all isConstant = false :=
    all_isConstant_eq_false ⟨t, mem_append_left _ ht, hvar⟩
  rw [rewrite, hall, Bool.and_false, if_neg Bool.false_ne_true, reduce]

/-- The terms that do not leave every result as it is. -/
def kept (op : Fold) (terms : List Expr) : List Expr := terms.filter (!isIdentity op ·)

theorem mem_kept_of_open (op : Fold) {t : Expr} (ht : t ∈ terms) (h : t.isConstant = false) :
    t ∈ kept op terms :=
  mem_filter.2 ⟨ht, by rw [not_isIdentity_of_open op h]; rfl⟩

theorem pass?_fold_null (op : Fold) (nulls : Bool) (hterms : ∀ t ∈ terms, IsSummand t)
    (hopen : ∃ t ∈ terms, t.isConstant = false) :
    pass? .untyped (fold op terms nulls null) = some (fold op (kept op terms) nulls null) := by
  have hreduce : reduceFold op terms nulls null = .done (fold op (kept op terms) nulls null) := by
    obtain ⟨t, ht, hvar⟩ := hopen
    have hmem := mem_kept_of_open op ht hvar
    rw [reduceFold, if_neg (by decide)]
    unfold kept at hmem ⊢
    cases hkept : terms.filter (!isIdentity op ·) with
    | nil => rw [hkept] at hmem; cases hmem
    | cons x rest =>
      cases rest with
      | nil =>
        rw [hkept, mem_singleton] at hmem
        subst hmem
        rcases hterms t ht with ⟨path, rfl⟩ | ⟨n, rfl⟩
        · rfl
        · cases hvar
      | cons y rest => rfl
  rw [pass?_eq _ rfl, passOperands?_fold op nulls hterms, Option.bind_some,
    rewrite_fold op nulls hopen, hreduce]
  rfl

theorem kept_kept (op : Fold) (terms : List Expr) : kept op (kept op terms) = kept op terms := by
  unfold kept
  rw [filter_filter]
  simp

theorem pass?_coalesce_fold (op : Fold) (nulls : Bool) (hterms : ∀ t ∈ terms, IsSummand t)
    (hopen : ∃ t ∈ terms, t.isConstant = false) (hd : d.isMissing = false) :
    pass? .untyped (coalesce [fold op terms nulls null, const d]) =
      some (coalesce [fold op (kept op terms) nulls null, const d]) := by
  have hpass : passOperands? .untyped (coalesce [fold op terms nulls null, const d]) =
      some (coalesce [fold op (kept op terms) nulls null, const d]) := by
    rw [passOperands?, mapM_cons, mapM_cons, mapM_nil, pass?_fold_null op nulls hterms hopen,
      pass?_const]
    rfl
  have hchosen : reduceCoalesce [fold op (kept op terms) nulls null, const d] =
      coalesce [fold op (kept op terms) nulls null, const d] := by
    have huncertain : (fold op (kept op terms) nulls null).isCertain = false := by
      by_contra hcertain
      cases isConstant_of_beq (Bool.of_not_eq_false hcertain) rfl
    have hcandidates : candidates [fold op (kept op terms) nulls null, const d] [] =
        [fold op (kept op terms) nulls null, const d] := by
      refine candidates_eq_self
        (show Chosen ([] ++ [fold op (kept op terms) nulls null, const d]) from ⟨?_, ?_, ?_⟩)
      · refine pairwise_pair.2 ?_
        change beq _ _ = false
        simp [beq]
      · exact forall_mem_cons.2 ⟨rfl, forall_mem_singleton.2 (isNull_const hd)⟩
      · exact forall_mem_singleton.2 huncertain
    have hflat : flatTerms [fold op (kept op terms) nulls null, const d] =
        [fold op (kept op terms) nulls null, const d] := rfl
    rw [reduceCoalesce, hflat, hcandidates]
  rw [pass?_eq _ rfl, hpass, Option.bind_some, rewrite, if_neg, reduce, reduceNary, hchosen]
  · rfl
  · exact Bool.false_ne_true

theorem simplify_of_passes {s : Schema} {e r : Expr} (h : pass? s e = some r)
    (hr : pass? s r = some r) : e.simplify s = r := by
  rw [simplify, h, Option.bind_some, settle?_of_pass hr]
  rfl

theorem toNumber?_of_isIdentity (row : Json) {t : Expr} (h : isIdentity op t) :
    ∃ x, (t.evaluate row).toNumber? = some x ∧ (x == op.identity) := by
  have hvalue : ∀ v, t.constant? = some v → t.evaluate row = v := by
    intro v hv
    cases t with
    | const | date => exact Option.some.inj hv
    | _ => cases hv
  unfold isIdentity at h
  cases hconst : t.constant? with
  | none => rw [hconst] at h; cases h
  | some v =>
    rw [hconst] at h
    rw [hvalue v hconst]
    cases v with
    | num n => exact ⟨n.toFloat, rfl, h⟩
    | _ => cases h

theorem filter_numbers_kept (op : Fold) (terms : List Expr) (row : Json) :
    (((kept op terms).map (evaluate row)).filterMap Json.toNumber?).filter (!· == op.identity) =
      ((terms.map (evaluate row)).filterMap Json.toNumber?).filter (!· == op.identity) := by
  induction terms with
  | nil => rfl
  | cons t rest ih =>
    unfold kept at ih ⊢
    rw [filter_cons]
    cases hid : isIdentity op t with
    | true =>
      obtain ⟨x, hx, hone⟩ := toNumber?_of_isIdentity row hid
      rw [map_cons, filterMap_cons_some hx, filter_cons, hone]
      exact ih
    | false =>
      simp only [Bool.not_false, if_true, map_cons]
      cases hx : (t.evaluate row).toNumber? with
      | none => rw [filterMap_cons_none hx, filterMap_cons_none hx, ih]
      | some x => rw [filterMap_cons_some hx, filterMap_cons_some hx, filter_cons, filter_cons, ih]

/-- A number stands for the terms that are dropped. -/
def Stands (op : Fold) (terms : List Expr) (row : Json) : Prop :=
  ∃ t ∈ terms, isIdentity op t = false ∧ (t.evaluate row).toNumber? ≠ none

theorem apply_kept (hopen : ∃ t ∈ terms, t.isConstant = false)
    (hnulls : nulls → (∃ t ∈ terms, isIdentity op t) → Stands op terms row) (other : Json) :
    op.apply nulls ((kept op terms).map (evaluate row)) other =
      op.apply nulls (terms.map (evaluate row)) other := by
  obtain ⟨v, hv, hvar⟩ := hopen
  have hkept := mem_kept_of_open op hv hvar
  have htotal :
      Json.ofFloat (op.total (((kept op terms).map (evaluate row)).filterMap Json.toNumber?)) =
      Json.ofFloat (op.total ((terms.map (evaluate row)).filterMap Json.toNumber?)) := by
    rw [← Fold.ofFloat_total, filter_numbers_kept, Fold.ofFloat_total]
  -- a term that is dropped is a number
  have hdropped : ∀ t ∈ terms, (t.evaluate row).toNumber? = none → t ∈ kept op terms := by
    intro t ht hnone
    refine mem_filter.2 ⟨ht, ?_⟩
    cases hid : isIdentity op t with
    | false => rfl
    | true =>
      obtain ⟨x, hx, -⟩ := toNumber?_of_isIdentity row hid
      rw [hx] at hnone
      cases hnone
  rw [Fold.apply_of_ne_nil (ne_nil_of_mem (mem_map_of_mem hkept)),
    Fold.apply_of_ne_nil (ne_nil_of_mem (mem_map_of_mem hv)), htotal]
  refine if_congr ?_ rfl rfl
  simp only [mem_map, exists_exists_and_eq_and, forall_exists_index, and_imp,
    forall_apply_eq_imp_iff₂]
  cases nulls with
  | false =>
    constructor
    · rintro ⟨t, ht, hnone⟩
      exact ⟨t, (mem_filter.1 ht).1, hnone⟩
    · rintro ⟨t, ht, hnone⟩
      exact ⟨t, hdropped t ht hnone, hnone⟩
  | true =>
    -- where a term is dropped, a number that stands for it is kept
    by_cases hid : ∃ t ∈ terms, isIdentity op t
    · obtain ⟨t, ht, hother, hsome⟩ := hnulls rfl hid
      exact iff_of_false (fun h => hsome (h t (mem_filter.2 ⟨ht, by rw [hother]; rfl⟩)))
        (fun h => hsome (h t ht))
    · have hall : kept op terms = terms := by
        refine filter_eq_self.2 fun t ht => ?_
        rw [Bool.not_eq_true']
        exact Bool.eq_false_iff.2 fun h => hid ⟨t, ht, h⟩
      rw [hall]

theorem find?_present_pair {v : Json} (hd : d.isMissing = false) :
    ([v, d].find? fun v => !v.isMissing).getD .null = if v.isMissing then d else v := by
  cases hv : v.isMissing with
  | true => simp [hv, hd]
  | false => simp [hv]

section

variable (hterms : ∀ t ∈ terms, IsSummand t)

theorem evaluate_fold (op : Fold) (terms : List Expr) (nulls : Bool) (d row : Json) :
    (fold op terms nulls (const d)).evaluate row = op.apply nulls (terms.map (evaluate row)) d := by
  unfold evaluate
  rw [evaluateWith, evaluateAll_eq_map]
  rfl

include hterms

theorem evaluate_simplify_known (hall : ∀ t ∈ terms, t.isConstant) :
    ((fold op terms nulls (const d)).simplify .untyped).evaluate row =
      (fold op terms nulls (const d)).evaluate row := by
  have hconst : (fold op terms nulls (const d)).children.all isConstant :=
    all_eq_true.2 (forall_mem_append.2 ⟨hall, forall_mem_singleton.2 rfl⟩)
  have hfolded : pass? .untyped (fold op terms nulls (const d)) =
      some (const ((fold op terms nulls (const d)).evaluate .null)) := by
    rw [pass?_eq _ rfl, passOperands?_fold op nulls hterms, Option.bind_some, rewrite, hconst]
    rfl
  rw [simplify_of_passes hfolded (pass?_const _ _)]
  exact evaluate_null_eq rfl hconst _ row

variable (hopen : ∃ t ∈ terms, t.isConstant = false)

include hopen

theorem kept_summands :
    (∀ t ∈ kept op terms, IsSummand t) ∧ ∃ t ∈ kept op terms, t.isConstant = false := by
  obtain ⟨t, ht, hvar⟩ := hopen
  exact ⟨fun t ht => hterms t (mem_filter.1 ht).1, t, mem_kept_of_open op ht hvar, hvar⟩

theorem simplify_fold_null :
    (fold op terms nulls null).simplify .untyped = fold op (kept op terms) nulls null := by
  obtain ⟨hkept, hkeptOpen⟩ := kept_summands hterms hopen
  have hagain := pass?_fold_null op nulls hkept hkeptOpen
  rw [kept_kept] at hagain
  exact simplify_of_passes (pass?_fold_null op nulls hterms hopen) hagain

theorem simplify_fold_other (hd : d.isMissing = false) :
    (fold op terms nulls (const d)).simplify .untyped =
      coalesce [fold op (kept op terms) nulls null, const d] := by
  obtain ⟨hkept, hkeptOpen⟩ := kept_summands hterms hopen
  have hagain := pass?_coalesce_fold op nulls hkept hkeptOpen hd
  rw [kept_kept] at hagain
  refine simplify_of_passes ?_ hagain
  rw [pass?_eq _ rfl, passOperands?_fold op nulls hterms, Option.bind_some,
    rewrite_fold op nulls hopen, reduceFold, isNull_const hd]
  exact pass?_coalesce_fold op nulls hterms hopen hd

end

/-- Simple sums and products have the value of the sum or product: in particular they are null where
    it is null. With `nulls` a number has to be left among the terms if some are dropped, unless all
    are known. A value to take instead is taken for a total that is no number as well, so there the
    total has to be one. -/
theorem evaluate_simplify_fold (hterms : ∀ t ∈ terms, IsSummand t)
    (hnulls : nulls = true → (∃ t ∈ terms, isIdentity op t = true) →
      (∀ t ∈ terms, t.isConstant = true) ∨ Stands op terms row)
    (hd : d = .null ∨ d.isMissing = false ∧
      (op.total ((terms.map (evaluate row)).filterMap Json.toNumber?)).isFinite = true) :
    ((fold op terms nulls (const d)).simplify .untyped).evaluate row =
      (fold op terms nulls (const d)).evaluate row := by
  by_cases hall : ∀ t ∈ terms, t.isConstant = true
  · exact evaluate_simplify_known hterms hall
  · have hopen : ∃ t ∈ terms, t.isConstant = false := by simpa using hall
    have hstays := apply_kept hopen fun hn hid => (hnulls hn hid).resolve_left hall
    rcases hd with rfl | ⟨hd, hfinite⟩
    · change ((fold op terms nulls null).simplify .untyped).evaluate row = _
      rw [simplify_fold_null hterms hopen, evaluate_fold, evaluate_fold, hstays]
    · have hchoice : (coalesce [fold op (kept op terms) nulls null, const d]).evaluate row =
          if (op.apply nulls (terms.map (evaluate row)) .null).isMissing then d
          else op.apply nulls (terms.map (evaluate row)) .null := by
        rw [← hstays .null, ← evaluate_fold]
        exact find?_present_pair hd
      rw [simplify_fold_other hterms hopen hd, evaluate_fold, hchoice]
      unfold Fold.apply
      dsimp only
      split
      · rfl
      · rw [Json.isMissing_ofFloat hfinite, if_neg Bool.false_ne_true]

/-- A field that is missing beside a zero and a number. -/
theorem evaluate_simplify_fold_beside :
    ((fold .add [field "a", int 0, int 2] true (int 7)).simplify .untyped).evaluate (.obj []) =
      (fold .add [field "a", int 0, int 2] true (int 7)).evaluate (.obj []) := by
  refine evaluate_simplify_fold ?_ (fun _ _ => .inr ⟨int 2, ?_, ?_, ?_⟩) (.inr ⟨rfl, ?_⟩)
  · exact forall_mem_cons.mpr ⟨.inl ⟨_, rfl⟩, forall_mem_cons.mpr ⟨.inr ⟨_, rfl⟩,
      forall_mem_singleton.mpr (.inr ⟨_, rfl⟩)⟩⟩
  · simp
  · decide +kernel
  · exact Option.some_ne_none _
  · decide +kernel

end Expr

end Snowbank
