import Snowbank.Proofs.Expr.Missing
import Snowbank.Proofs.Number.Whole

/-!
# Operands That Suit an Operator

An operator that computes has a second reason to give nothing: its operands are
there and it has no result for them, as when a text is not a number. Its test is
made from the tests of its operands all the same, so it is exact only where the
operands suit the operator. The condition on their values that is given here is
the weakest one: wherever it fails, the test is wrong.

Two things make it more than a condition on types. An empty array counts as
missing and still has a text, so that an operator on texts has a result where
its test says that there is none. And a value to take instead, where there is
one, hides from the test that it was needed.

## Main definitions

* `suits`: The values of the operands on a row suit the node.
* `tested`: What the test of a node says, from these values.

## Theorems

* `missing_exact_iff`: A test is exact just where the operands suit.
-/

namespace Snowbank

open List Json Bool

/-! ### Operators on values -/

/-- The value is missing, or the operator has a result for it. -/
def Unary.suits (op : Unary) (value : Json) : Bool := match op with
  | .first =>
    match value with
    | .arr (item :: _) => !item.isMissing
    | _ => true
  | .last =>
    match value with
    | .arr items => items.getLast?.all fun item => !item.isMissing
    | _ => true
  | .length => value.isMissing || value.str?.isSome
  | .convert .number => value.isMissing || value.toNumber?.any Float.isFinite
  | .convert .integer => value.isMissing || value.toNumber?.any fun x => (roundToZero x).isFinite
  -- an empty array has a text
  | .convert .string => value.isNull || !value.isMissing
  | _ => true

/-- The value is a text that can separate others. -/
def Json.separates (value : Json) : Bool := value.asText?.any fun s => !s.isEmpty

/-- The operator has a result where both values are there, and none where its test says so. -/
def Binary.suits (op : Binary) (a b : Json) : Bool := match op with
  | .split => a.isNull || a.isMissing != b.separates
  | .side _ => if b.toIndex?.isSome then a.isNull || !a.isMissing else a.isMissing || b.isMissing
  | _ => true

/-- The least or greatest of the values is a number, or all are missing. -/
def Json.suitsExtreme (choose : Float → Float → Float) (values : List Json) : Bool :=
  match values.filterMap toNumber? with
  | [] => values.all isMissing
  | x :: rest => (rest.foldl choose x).isFinite

/-- The operator has a result where one of the values is there. -/
def Nary.suits (op : Nary) (values : List Json) : Bool := match op with
  | .min => suitsExtreme smaller values
  | .max => suitsExtreme larger values
  | _ => true

/-- The result of an operator on two values, where it has one. -/
def Arith.result? (op : Arith) (a b : Json) : Option Float :=
  a.toNumber?.bind fun x => b.toNumber?.bind fun y => op.apply? x y

/-- There is a result or a value to take instead, or there is a reason for
    having none that the test looks at. -/
def Arith.suits (op : Arith) (a b other : Json) : Bool :=
  (op.result? a b).isSome || !other.isMissing || a.isMissing || b.isMissing ||
    (op.divides && b.nullEq (.int 0))

/-- The terms are not summed up: one of them is not a number, or with `nulls` none is. -/
def Fold.fallsBack (nulls : Bool) (values : List Json) : Bool :=
  (!nulls && (values.filterMap toNumber?).length != values.length) ||
    ((values.filterMap toNumber?).isEmpty && !values.isEmpty)

/-- The total is a number, or terms are missing where there is none and nothing to take instead. -/
def Fold.suits (op : Fold) (nulls : Bool) (values : List Json) (other : Json) : Bool :=
  if Fold.fallsBack nulls values then
    !other.isMissing || (if nulls then values.all isMissing else values.any isMissing)
  else
    (op.total (values.filterMap toNumber?)).isFinite &&
      !(nulls && values.isEmpty && other.isMissing)

/-- The terms are not just empty arrays, which are missing and yet have a text. -/
def Json.suitsJoin (values : List Json) (other : Json) : Bool :=
  values.all isNull || !values.all isMissing || !other.isMissing

/-- What is found is not in, or of, an empty array. -/
def Json.suitsFind (text needle start other : Json) : Bool := match text.position? needle start with
  | some i => i == -1 || !other.isMissing || !(text.isMissing || needle.isMissing)
  | none => true

namespace Expr

/-- The node computes a value from the values of its operands. -/
def isValueOperator : Expr → Bool
  | unary op _ =>
    match op with
    | .first | .last | .length | .convert .number | .convert .integer | .convert .string => true
    | _ => false
  | binary op _ _ =>
    match op with
    | .split | .side _ => true
    | _ => false
  | nary op _ =>
    match op with
    | .min | .max => true
    | _ => false
  | arith _ _ _ _ | fold _ _ _ _ | concat _ _ _ | find _ _ _ _ => true
  | _ => false

/-- The values that the operands of a node have on a row suit the node. -/
def suits (row : Json) : Expr → Bool
  | unary op x => op.suits (evaluate row x)
  | binary op a b => op.suits (evaluate row a) (evaluate row b)
  | nary op terms => op.suits (terms.map (evaluate row))
  | arith op a b other => op.suits (evaluate row a) (evaluate row b) (evaluate row other)
  | fold op terms nulls other => op.suits nulls (terms.map (evaluate row)) (evaluate row other)
  | concat terms _ other => suitsJoin (terms.map (evaluate row)) (evaluate row other)
  | find text needle start other =>
    suitsFind (evaluate row text) (evaluate row needle) (evaluate row start)
      (evaluate row other)
  | _ => true

end Expr

/-! ### Values that are missing -/

namespace Json

variable {v : Json} {values : List Json}

theorem isMissing_ofFloat_eq (x : Float) : (ofFloat x).isMissing = !x.isFinite := by
  cases hx : x.isFinite with
  | true => exact isMissing_ofFloat hx
  | false =>
    unfold ofFloat float
    rw [hx]
    rfl

theorem isMissing_of_isNull (h : v.isNull) : v.isMissing := by
  cases v with
  | null => rfl
  | _ => cases h

theorem asText?_eq_none_iff (v : Json) : v.asText? = none ↔ v.isNull := by
  cases v with
  | null => exact ⟨fun _ => rfl, fun _ => rfl⟩
  | _ => exact ⟨(nomatch ·), (nomatch ·)⟩

theorem isNull_of_asText? {s : String} (h : v.asText? = some s) : v.isNull = false := by
  cases v with
  | null => cases h
  | _ => rfl

theorem isMissing_of_toNumber? {x : Float} (h : v.toNumber? = some x) : v.isMissing = false := by
  cases v with
  | null | arr => cases h
  | _ => rfl

theorem toNumber?_of_isMissing (h : v.isMissing) : v.toNumber? = none := by
  rcases (isMissing_iff v).1 h with rfl | rfl <;> rfl

theorem any_isMissing_of_toNumber?
    (h : (values.filterMap toNumber?).length = values.length) : values.any isMissing = false := by
  rw [filterMap_length_eq_length] at h
  rw [any_eq_false]
  intro v hv
  obtain ⟨x, hx⟩ := Option.isSome_iff_exists.1 (h v hv)
  rw [isMissing_of_toNumber? hx]
  exact false_ne_true

theorem filterMap_toNumber?_of_isMissing
    (h : values.all isMissing) : values.filterMap toNumber? = [] := by
  rw [filterMap_eq_nil_iff]
  intro v hv
  exact toNumber?_of_isMissing (all_eq_true.1 h v hv)

end Json

variable {op : Arith} {a b text needle start : Json}

theorem Text.splitChars_ne_nil (separator : List Char) (skip : Nat) (piece rest : List Char) :
    splitChars separator skip piece rest ≠ [] := by
  fun_induction splitChars separator skip piece rest with
  | case1 | case3 => exact cons_ne_nil _ _
  | case2 _ _ _ _ ih | case4 _ _ _ _ ih => exact ih

theorem Text.indexOf_nonneg {text needle : String} {start : Int}
    (h : indexOf text needle start ≠ -1) : 0 ≤ indexOf text needle start := by
  unfold indexOf at h ⊢
  dsimp only at h ⊢
  split
  next hlong =>
    rw [if_pos hlong] at h
    exact absurd rfl h
  next hlong =>
    rw [if_neg hlong] at h
    split
    · exact Int.natCast_nonneg _
    next hnone =>
      rw [hnone] at h
      exact absurd rfl h

/-! ### Results that are missing -/

/-- The result of an operator on one value is missing where the value is. -/
theorem Unary.suits_iff {op : Unary} (h : (Expr.unary op .null).isValueOperator)
    (v : Json) : v.isMissing = (op.apply v).isMissing ↔ op.suits v := by
  cases op with
  | first =>
    cases v with
    | arr items =>
      cases items with
      | nil => exact ⟨fun _ => rfl, fun _ => rfl⟩
      | cons item rest =>
        change false = item.isMissing ↔ (!item.isMissing)
        rw [not_eq_true', eq_comm]
    | _ => exact ⟨fun _ => rfl, fun _ => rfl⟩
  | last =>
    cases v with
    | arr items =>
      change items.isEmpty = (items.getLast?.getD .null).isMissing ↔
        items.getLast?.all (fun item => !item.isMissing)
      cases hlast : items.getLast? with
      | none =>
        rw [getLast?_eq_none_iff.1 hlast]
        exact ⟨fun _ => rfl, fun _ => rfl⟩
      | some item =>
        have hne : items.isEmpty = false := by
          cases items with
          | nil => cases hlast
          | cons => rfl
        rw [hne]
        change false = item.isMissing ↔ (!item.isMissing)
        rw [not_eq_true', eq_comm]
    | _ => exact ⟨fun _ => rfl, fun _ => rfl⟩
  | length =>
    cases v with
    | null | bool | num | str | obj => simp [apply, suits, isMissing, Json.str?, Json.nat]
    | arr items => simp [apply, suits, isMissing, Json.str?]
  | convert type =>
    cases type with
    | number =>
      change _ = (DataType.convert .number v).isMissing ↔
        (v.isMissing || v.toNumber?.any Float.isFinite)
      unfold DataType.convert
      cases hx : v.toNumber? with
      | none => simp [isMissing]
      | some x => simp [isMissing_of_toNumber? hx, Json.isMissing_ofFloat_eq]
    | integer =>
      change _ = (DataType.convert .integer v).isMissing ↔
        (v.isMissing || v.toNumber?.any fun x => (roundToZero x).isFinite)
      unfold DataType.convert
      cases hx : v.toNumber? with
      | none => simp [isMissing]
      | some x => simp [isMissing_of_toNumber? hx, Json.isMissing_ofFloat_eq]
    | string =>
      change _ = (optStr v.asText?).isMissing ↔ (v.isNull || !v.isMissing)
      cases hs : v.asText? with
      | none =>
        rw [asText?_eq_none_iff] at hs
        rw [hs, isMissing_of_isNull hs]
        exact ⟨fun _ => rfl, fun _ => rfl⟩
      | some s =>
        rw [Json.isNull_of_asText? hs, Bool.false_or, Bool.not_eq_true']
        rfl
    | _ => cases h
  | not | missing | present | isType => cases h

/-- What the test of an operator on two values says: a separator is not asked for. -/
def Binary.missingResult (op : Binary) (a b : Json) : Bool := match op with
  | .split => a.isMissing
  | _ => a.isMissing || b.isMissing

theorem Binary.suits_iff {op : Binary} (h : (Expr.binary op .null .null).isValueOperator)
    (a b : Json) : op.missingResult a b = (op.apply a b).isMissing ↔ op.suits a b := by
  cases op with
  | split =>
    change a.isMissing = isMissing (Binary.apply .split a b) ↔
      (a.isNull || a.isMissing != b.separates)
    unfold Binary.apply separates
    cases ha : a.asText? with
    | none =>
      rw [asText?_eq_none_iff] at ha
      rw [ha, isMissing_of_isNull ha]
      simp [isMissing]
    | some s =>
      rw [Json.isNull_of_asText? ha, Bool.false_or]
      cases hb : b.asText? with
      | none => simp [isMissing]
      | some t =>
        by_cases ht : t.isEmpty
        · simp [ht, isMissing]
        · have hpieces : (Text.splitOn s t).isEmpty = false := by
            unfold Text.splitOn
            rw [isEmpty_map, isEmpty_eq_false_iff]
            exact Text.splitChars_ne_nil _ _ _ _
          simp [ht, isMissing, strings, hpieces]
  | side op =>
    change (a.isMissing || b.isMissing) = isMissing (Binary.apply (.side op) a b) ↔
      (if b.toIndex?.isSome then a.isNull || !a.isMissing else a.isMissing || b.isMissing)
    unfold Binary.apply
    cases hb : b.toIndex? with
    | none => cases a.asText? <;> simp [isMissing]
    | some n =>
      have hthere : b.isMissing = false := by
        cases b with
        | num => rfl
        | _ => cases hb
      cases ha : a.asText? with
      | none =>
        rw [asText?_eq_none_iff] at ha
        rw [ha, isMissing_of_isNull ha]
        simp [isMissing]
      | some s =>
        rw [Json.isNull_of_asText? ha, hthere, Bool.or_false]
        change a.isMissing = false ↔ (!a.isMissing)
        rw [not_eq_true']
  | eq | ne | compare | startsWith | endsWith | get | basicEq | basicCompare => cases h

theorem Json.suitsExtreme_iff (choose : Float → Float → Float) (values : List Json) :
    values.all isMissing = (extreme choose values).isMissing ↔ suitsExtreme choose values := by
  unfold extreme suitsExtreme
  cases hnumbers : values.filterMap toNumber? with
  | nil => exact Iff.rfl
  | cons x rest =>
    -- one of the values is a number, and so is there
    have hsome : values.all isMissing = false := by
      rw [eq_false_iff]
      intro hall
      rw [filterMap_toNumber?_of_isMissing hall] at hnumbers
      cases hnumbers
    rw [hsome, isMissing_ofFloat_eq, eq_comm, not_eq_false']

theorem Arith.nullEq_zero_of_result? (hdivides : op.divides)
    (h : (op.result? a b).isSome) : b.nullEq (.int 0) = false := by
  obtain ⟨z, hz⟩ := Option.isSome_iff_exists.1 h
  rw [result?, Option.bind_eq_some_iff] at hz
  obtain ⟨x, -, hz⟩ := hz
  rw [Option.bind_eq_some_iff] at hz
  obtain ⟨y, hy, hz⟩ := hz
  have hzero : (y == 0.0) = false := by
    rw [eq_false_iff]
    intro hzero
    cases op with
    | div | mod | floor => simp [hzero, Arith.apply?] at hz
    | sub | exp => cases hdivides
  rw [nullEq, isMissing_of_toNumber? hy]
  cases b with
  | num n =>
    cases hy
    exact hzero
  | bool | str => rfl
  | null | arr | obj => cases hy

theorem Arith.apply_eq (op : Arith) (a b other : Json) :
    op.apply a b other = match op.result? a b with
      | some z => .ofFloat z
      | none => other := by
  unfold apply result?
  cases a.toNumber? <;> cases b.toNumber? <;> rfl

theorem Arith.isFinite_of_result? {z : Float} (h : op.result? a b = some z) : z.isFinite := by
  rw [result?, Option.bind_eq_some_iff] at h
  obtain ⟨x, -, h⟩ := h
  rw [Option.bind_eq_some_iff] at h
  obtain ⟨y, -, h⟩ := h
  exact (Option.filter_eq_some_iff.1 h).2

theorem Arith.suits_iff (op : Arith) (a b other : Json) :
    ((a.isMissing || b.isMissing || (op.divides && b.nullEq (.int 0))) && other.isMissing) =
      (op.apply a b other).isMissing ↔ op.suits a b other := by
  rw [apply_eq, suits]
  cases hz : op.result? a b with
  | none => cases other.isMissing <;> simp [Bool.or_assoc]
  | some z =>
    -- both operands are there, and the second is not zero where it divides
    have hzero : (op.divides && b.nullEq (.int 0)) = false := by
      cases hdivides : op.divides with
      | false => rfl
      | true => exact nullEq_zero_of_result? hdivides (by rw [hz]; rfl)
    have hthere : a.isMissing = false ∧ b.isMissing = false := by
      rw [result?, Option.bind_eq_some_iff] at hz
      obtain ⟨x, hx, hz⟩ := hz
      rw [Option.bind_eq_some_iff] at hz
      obtain ⟨y, hy, -⟩ := hz
      exact ⟨isMissing_of_toNumber? hx, isMissing_of_toNumber? hy⟩
    rw [hzero, hthere.1, hthere.2, isMissing_ofFloat (isFinite_of_result? hz)]
    exact ⟨fun _ => rfl, fun _ => rfl⟩

theorem Fold.suits_iff (op : Fold) (nulls : Bool) (values : List Json) (other : Json) :
    ((if nulls then values.all isMissing else values.any isMissing) &&
        other.isMissing) = (op.apply nulls values other).isMissing ↔
      op.suits nulls values other := by
  have hvalue : op.apply nulls values other = if fallsBack nulls values then other
      else .ofFloat (op.total (values.filterMap toNumber?)) := rfl
  rw [hvalue, suits]
  cases hback : fallsBack nulls values with
  | true =>
    rw [if_pos rfl, if_pos rfl]
    cases other.isMissing <;> simp
  | false =>
    rw [if_neg Bool.false_ne_true, if_neg Bool.false_ne_true, Json.isMissing_ofFloat_eq]
    rw [fallsBack, or_eq_false_iff, and_eq_false_iff, and_eq_false_iff] at hback
    cases nulls with
    | false =>
      have hlength : (values.filterMap toNumber?).length = values.length := by simpa using hback.1
      rw [if_neg Bool.false_ne_true, any_isMissing_of_toNumber? hlength]
      cases (op.total (values.filterMap toNumber?)).isFinite <;> simp
    | true =>
      rw [if_pos rfl]
      cases hall : values.all isMissing with
      | true =>
        -- no number, so there are no terms at all
        have hnone := filterMap_toNumber?_of_isMissing hall
        have hempty : values.isEmpty := by
          rw [hnone] at hback
          simpa using hback.2
        have hfinite : (op.total []).isFinite := by cases op <;> decide
        rw [hnone, hempty, hfinite]
        cases other.isMissing <;> simp
      | false =>
        have hempty : values.isEmpty = false := by
          cases values with
          | nil => cases hall
          | cons => rfl
        rw [hempty]
        cases (op.total (values.filterMap toNumber?)).isFinite <;> simp

theorem Json.suitsJoin_iff (separator : String) (values : List Json) (other : Json) :
    (values.all isMissing && other.isMissing) = (join separator values other).isMissing ↔
      suitsJoin values other := by
  unfold join suitsJoin
  cases hparts : values.filterMap asText? with
  | nil =>
    have hnull : values.all isNull := by
      rw [filterMap_eq_nil_iff] at hparts
      rw [all_eq_true]
      exact fun v hv => (asText?_eq_none_iff v).1 (hparts v hv)
    have hall : values.all isMissing :=
      all_eq_true.2 fun v hv => isMissing_of_isNull (all_eq_true.1 hnull v hv)
    rw [hnull, hall]
    exact ⟨fun _ => rfl, fun _ => rfl⟩
  | cons part parts =>
    have hnull : values.all isNull = false := by
      rw [eq_false_iff]
      intro hall
      have hnil : values.filterMap asText? = [] := filterMap_eq_nil_iff.2 fun v hv =>
        (asText?_eq_none_iff v).2 (all_eq_true.1 hall v hv)
      rw [hnil] at hparts
      cases hparts
    rw [hnull]
    change _ = false ↔ _
    cases values.all isMissing <;> cases other.isMissing <;> decide

/-- A position that is found is not taken for the mark of one that is not. -/
theorem Json.valueEq_position {i : Int} (h : text.position? needle start = some i) :
    (Json.int i).valueEq (.int (-1)) = (i == -1) := by
  unfold position? at h
  split at h
  next s n hs hn =>
    cases h
    by_cases hi : Text.indexOf s n (start.toIndex?.getD 0) = -1
    · rw [hi]
      decide
    · rw [beq_false_of_ne hi]
      exact Double.ofInt_ne_neg_one (Text.indexOf_nonneg hi)
  · cases h

theorem Json.position?_eq_none
    (h : text.position? needle start = none) : text.isMissing ∨ needle.isMissing := by
  unfold position? at h
  split at h
  · cases h
  next hnone =>
    cases htext : text.asText? with
    | none => exact .inl (isMissing_of_isNull ((asText?_eq_none_iff text).1 htext))
    | some s =>
      cases hneedle : needle.asText? with
      | none => exact .inr (isMissing_of_isNull ((asText?_eq_none_iff needle).1 hneedle))
      | some n => exact absurd hneedle (hnone s n htext)

theorem Json.suitsFind_iff (text needle start other : Json) :
    ((text.isMissing || needle.isMissing || text.position? needle start == some (-1)) &&
        other.isMissing) =
      (match text.position? needle start with
        | some i => if i == -1 then other else .int i
        | none => other).isMissing ↔ suitsFind text needle start other := by
  unfold suitsFind
  cases hposition : text.position? needle start with
  | none =>
    have hmissing : (text.isMissing || needle.isMissing) := by
      rw [or_eq_true]
      exact position?_eq_none hposition
    rw [hmissing]
    exact ⟨fun _ => rfl, fun _ => rfl⟩
  | some i =>
    dsimp only
    by_cases hi : i = -1
    · subst hi
      rw [beq_self_eq_true, beq_self_eq_true, Bool.or_true, if_pos rfl]
      exact ⟨fun _ => rfl, fun _ => rfl⟩
    · have hother : (some i == some (-1)) = false := beq_false_of_ne (by simpa using hi)
      rw [if_neg (by simpa using hi), hother, beq_false_of_ne hi]
      change _ = false ↔ _
      cases text.isMissing <;> cases needle.isMissing <;> cases other.isMissing <;> decide

namespace Expr

section

variable {onBetween : Expr → Expr} {row : Json}

/-- What the test of a node says, from the values of its operands. -/
def tested (row : Json) : Expr → Bool
  | unary _ x => (evaluate row x).isMissing
  | binary op a b => op.missingResult (evaluate row a) (evaluate row b)
  | nary _ terms => (terms.map (evaluate row)).all isMissing
  | arith op a b other =>
    ((evaluate row a).isMissing || (evaluate row b).isMissing ||
      (op.divides && (evaluate row b).nullEq (.int 0))) && (evaluate row other).isMissing
  | fold _ terms nulls other =>
    (if nulls then (terms.map (evaluate row)).all isMissing
      else (terms.map (evaluate row)).any isMissing) && (evaluate row other).isMissing
  | concat terms _ other =>
    (terms.map (evaluate row)).all isMissing && (evaluate row other).isMissing
  | find text needle start other =>
    ((evaluate row text).isMissing || (evaluate row needle).isMissing ||
      (evaluate row text).position? (evaluate row needle) (evaluate row start) == some (-1)) &&
      (evaluate row other).isMissing
  | _ => false

theorem evaluate_missingWith {e : Expr} (hop : e.isValueOperator)
    (h : ∀ c ∈ e.children, IsExact onBetween row c) :
    evaluate row (missingWith onBetween e) = .bool (tested row e) := by
  cases e with
  | unary op x =>
    have hx := h x (mem_singleton_self x)
    cases op with
    | first | last | length => exact hx
    | convert type =>
      cases type with
      | number | integer | string => exact hx
      | _ => cases hop
    | not | missing | present | isType => cases hop
  | binary op a b =>
    simp only [children, forall_mem_cons] at h
    cases op with
    | split => exact h.1
    | side =>
      rw [missingWith, evaluate_or]
      simp only [map_cons, map_nil]
      rw [h.1, h.2.1]
      simp [tested, Binary.missingResult, Json.isTruthy]
    | _ => cases hop
  | nary op terms =>
    cases op with
    | min | max => exact evaluate_and_missingAll h
    | _ => cases hop
  -- a divisor that is zero is asked for beside the operands
  | arith op a b other =>
    simp only [children, forall_mem_cons] at h
    have hzero : evaluate row (binary .eq b (int 0)) =
        .bool ((evaluate row b).nullEq (.int 0)) := rfl
    rw [missingWith, evaluate_and]
    simp only [map_cons, map_nil]
    rw [h.2.2.1, evaluate_or]
    cases hdivides : op.divides with
    | true =>
      rw [if_pos rfl]
      simp only [map_cons, map_nil, cons_append, nil_append]
      rw [h.1, h.2.1, hzero]
      simp [tested, Json.isTruthy, hdivides, Bool.or_assoc]
    | false =>
      rw [if_neg Bool.false_ne_true, append_nil]
      simp only [map_cons, map_nil]
      rw [h.1, h.2.1]
      simp [tested, Json.isTruthy, hdivides]
  | fold op terms nulls other =>
    simp only [children, forall_mem_append, forall_mem_singleton] at h
    rw [missingWith, evaluate_and]
    simp only [map_cons, map_nil]
    rw [h.2]
    cases nulls with
    | true =>
      rw [if_pos rfl, evaluate_and_missingAll h.1]
      simp [tested, Json.isTruthy]
    | false =>
      rw [if_neg Bool.false_ne_true, evaluate_or_missingAll h.1]
      simp [tested, Json.isTruthy]
  | concat terms separator other =>
    simp only [children, forall_mem_append, forall_mem_singleton] at h
    rw [missingWith, evaluate_and]
    simp only [map_cons, map_nil]
    rw [h.2, evaluate_and_missingAll h.1]
    simp [tested, Json.isTruthy]
  | find text needle start other =>
    simp only [children, forall_mem_cons] at h
    -- the test looks for the mark of a text that is not found
    have hfound : (evaluate row (binary .basicEq (indexOf text needle start) (int (-1)))).isTruthy
        = ((evaluate row text).position? (evaluate row needle) (evaluate row start) ==
          some (-1)) := by
      have hindex : evaluate row (indexOf text needle start) =
          match (evaluate row text).position? (evaluate row needle) (evaluate row start) with
          | some i => .int i
          | none => .null := rfl
      change Json.isTruthy (Binary.apply .basicEq (evaluate row (indexOf text needle start))
        (.int (-1))) = _
      rw [hindex]
      cases hposition : (evaluate row text).position? (evaluate row needle)
          (evaluate row start) with
      | none => rfl
      | some i =>
        change (Json.int i).valueEq (.int (-1)) = (some i == some (-1))
        rw [Json.valueEq_position hposition]
        rfl
    rw [missingWith, evaluate_and]
    simp only [map_cons, map_nil]
    rw [h.2.2.2.1, notFound, evaluate_or]
    simp only [map_cons, map_nil]
    rw [h.1, h.2.1]
    simp [tested, Json.isTruthy, hfound, Bool.or_assoc]
  | _ => cases hop

/-- The truth value that the test of an operator gives is the right one where
    the operands suit the operator. -/
theorem tested_iff_suits {e : Expr} (hop : e.isValueOperator) :
    tested row e = (evaluate row e).isMissing ↔ e.suits row := by
  cases e with
  | unary op x => exact Unary.suits_iff hop _
  | binary op a b => exact Binary.suits_iff hop _ _
  | nary op terms =>
    have hvalue : evaluate row (nary op terms) = op.apply (terms.map (evaluate row)) := by
      change op.apply (evaluateAll _ row terms) = _
      rw [evaluateAll_eq_map]
      rfl
    rw [hvalue]
    cases op with
    | min | max => exact suitsExtreme_iff _ _
    | _ => cases hop
  | arith op a b other => exact Arith.suits_iff op _ _ _
  | fold op terms nulls other =>
    have hvalue : evaluate row (fold op terms nulls other) =
        op.apply nulls (terms.map (evaluate row)) (evaluate row other) := by
      change op.apply nulls (evaluateAll _ row terms) _ = _
      rw [evaluateAll_eq_map]
      rfl
    rw [hvalue]
    exact Fold.suits_iff op nulls _ _
  | concat terms separator other =>
    have hvalue : evaluate row (concat terms separator other) =
        Json.join separator (terms.map (evaluate row)) (evaluate row other) := by
      change Json.join separator (evaluateAll _ row terms) _ = _
      rw [evaluateAll_eq_map]
      rfl
    rw [hvalue]
    exact suitsJoin_iff separator _ _
  | find text needle start other => exact suitsFind_iff _ _ _ _
  | _ => cases hop

/-- On a row that is an object, the test of an operator on values gives a truth
    value. It is true exactly where the value is null or an empty array, and
    false everywhere else, precisely when the operands suit the operator. -/
theorem missing_exact_iff {e : Expr} (hop : e.isValueOperator = true)
    (hoperands : ∀ c ∈ e.children, c.Structural) (fields : Fields) :
    (∃ t, evaluate (.obj fields) e.missing = .bool t) ∧
      (((evaluate (.obj fields) e.missing = .bool true ↔
          evaluate (.obj fields) e = .null ∨ evaluate (.obj fields) e = .arr []) ∧
        (¬(evaluate (.obj fields) e = .null ∨ evaluate (.obj fields) e = .arr []) →
          evaluate (.obj fields) e.missing = .bool false)) ↔
        e.suits (.obj fields) = true) := by
  have htest : evaluate (.obj fields) e.missing = .bool (tested (.obj fields) e) :=
    evaluate_missingWith hop fun c hc => isExact_of_structural (hoperands c hc)
  refine ⟨⟨_, htest⟩, ?_⟩
  rw [htest, ← Json.isMissing_iff, ← tested_iff_suits hop, Json.bool.injEq, Json.bool.injEq]
  cases tested (.obj fields) e <;> cases (evaluate (.obj fields) e).isMissing <;> decide

/-- A quotient with nothing to take instead. -/
def quotient : Expr := arith .div (field "a") (field "b") null

/-- Zero as a divisor is what the test asks for; a text that is no number is
    not, and there the test says that there is a value. -/
theorem missing_exact_iff_quotient :
    quotient.isValueOperator = true ∧ (∀ c ∈ quotient.children, c.Structural) ∧
      (evaluate (.obj [("a", .int 7), ("b", .int 0)]) quotient = .null ∧
        evaluate (.obj [("a", .int 7), ("b", .int 0)]) quotient.missing = .bool true) ∧
      (evaluate (.obj [("a", .int 7), ("b", .str "x")]) quotient = .null ∧
        evaluate (.obj [("a", .int 7), ("b", .str "x")]) quotient.missing = .bool false) := by
  have hop : quotient.isValueOperator = true := rfl
  have hoperands : ∀ c ∈ quotient.children, c.Structural := by decide +kernel
  have hzero : evaluate (.obj [("a", .int 7), ("b", .int 0)]) quotient = .null := by rfl
  have htext : evaluate (.obj [("a", .int 7), ("b", .str "x")]) quotient = .null := by rfl
  have hexact := (missing_exact_iff hop hoperands [("a", .int 7), ("b", .int 0)]).2.mpr
    (by decide +kernel)
  have hwrong := missing_exact_iff hop hoperands [("a", .int 7), ("b", .str "x")]
  refine ⟨hop, hoperands, ⟨hzero, hexact.1.mpr (Or.inl hzero)⟩, htext, ?_⟩
  obtain ⟨⟨t, ht⟩, hiff⟩ := hwrong
  have hunsuited : ¬suits (.obj [("a", .int 7), ("b", .str "x")]) quotient = true := by
    decide +kernel
  cases t with
  | false => exact ht
  | true =>
    refine absurd (hiff.mp ⟨⟨fun _ => Or.inl htext, fun _ => ht⟩, ?_⟩) hunsuited
    exact fun hvalue => absurd (Or.inl htext) hvalue

end

end Expr

end Snowbank
