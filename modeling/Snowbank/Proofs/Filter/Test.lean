import Snowbank.Proofs.Filter.Operand
import Snowbank.Proofs.Simplify.Judged

/-!
# Tests

The expressions that a filter goes through while it is simplified: tests of
operands, truth values, and what the operators on truth values make of them.
Basic comparisons are among them, but only of operands that are in order
whenever both have a value, since a comparison of others cannot be negated by
turning it round.

Simplifying drops a term that equals another one and resolves a term that
stands beside its negation. For that equal tests have to be equally true.

## Main definitions

* `Atom`: A test of operands.
* `Test`: Truth values and tests under the operators on truth values.

## Theorems

* `Test.holds_congr`: Equal tests are equally true.
-/

namespace Snowbank

open List Inequality Json

/-- The operator tests a single operand. -/
def Unary.isProbe : Unary → Bool
  | .missing | .present | .isType _ => true
  | _ => false

/-- The operator compares two operands, whether they are there or not. -/
def Binary.isTest : Binary → Bool
  | .eq | .ne | .compare _ | .basicEq => true
  | _ => false

namespace Expr

/-- Two operands are in order if both have a value. -/
def InOrder (row : Json) (x y : Expr) : Prop :=
  (x.evaluateColumns row).isNull = false → (y.evaluateColumns row).isNull = false →
    (order? (x.evaluateColumns row) (y.evaluateColumns row)).isSome

/-- A test of operands: `P` holds of the operand of a test of one, and `Q` of all others. -/
inductive Atom (row : Json) (P Q : Expr → Prop) : Expr → Prop
  | probe {op : Unary} {x : Expr} (probes : op.isProbe) (operand : P x) :
      Atom row P Q (unary op x)
  | member {x : Expr} {set : List Json} (operand : Q x) (leaves : ∀ v ∈ set, v.IsLeaf) :
      Atom row P Q (member x set)
  | range {x : Expr} {bounds : List (Inequality × Expr)} (operand : Q x)
      (limits : ∀ b ∈ bounds, Q b.2) : Atom row P Q (range x bounds)
  | test {op : Binary} {x y : Expr} (tests : op.isTest) (left : Q x) (right : Q y) :
      Atom row P Q (binary op x y)
  | ordered {op : Inequality} {x y : Expr} (left : Q x) (right : Q y)
      (order : InOrder row x y) : Atom row P Q (binary (.basicCompare op) x y)

/-- The operand is not known beforehand. -/
def Unknown (s : Schema) (row : Json) (x : Expr) : Prop := Operand s row x ∧ x.isConstant = false

/-- Truth values and tests under the operators on truth values. -/
inductive Test (s : Schema) (row : Json) : Expr → Prop
  | const {v : Json} (truth : v.isTruthValue) : Test s row (const v)
  /-- A field that holds truth values only is a test of itself. -/
  | field {path : Path} (stored : StoredAt s row path [.boolean]) : Test s row (field path)
  | flag {path : Path} (stored : StoredAt s row path [.boolean]) :
      Test s row (var path .boolean)
  | atom {e : Expr} (h : Atom row (Unknown s row) (Operand s row) e) : Test s row e
  | not {x : Expr} (h : Test s row x) : Test s row (not x)
  | and {terms : List Expr} (h : ∀ t ∈ terms, Test s row t) : Test s row (and terms)
  | or {terms : List Expr} (h : ∀ t ∈ terms, Test s row t) : Test s row (or terms)
  | when {cond x y : Expr} (hc : Test s row cond) (hx : Test s row x) (hy : Test s row y) :
      Test s row (when cond x y)
  | case {clauses : List (Expr × Expr)} {other : Expr}
      (hc : ∀ c ∈ clauses, Test s row c.1) (hx : ∀ c ∈ clauses, Test s row c.2)
      (ho : Test s row other) : Test s row (case clauses other)

section

variable {s : Schema} {row : Json} {e : Expr} {P Q : Expr → Prop}

theorem evaluateColumns_range {x : Expr} {bounds : List (Inequality × Expr)} :
    (range x bounds).evaluateColumns row = .bool (bounds.all fun b =>
        b.1.applyPresent (x.evaluateColumns row) (b.2.evaluateColumns row)) := by
  have hbounds : ∀ (v : Json) (bounds : List (Inequality × Expr)),
      evaluateBounds (fun path type => columnValue type (row.lookup path)) row v bounds =
        bounds.all fun b => b.1.applyPresent v (b.2.evaluateColumns row) := by
    intro v bounds
    induction bounds with
    | nil => rfl
    | cons b rest ih =>
      rw [evaluateBounds, ih, all_cons]
      rfl
  rw [evaluateColumns, evaluateWith, hbounds]
  rfl

theorem Atom.isTruthValue (h : Atom row P Q e) : (e.evaluateColumns row).isTruthValue := by
  cases h with
  | @probe op x probes =>
    cases op with
    | missing | present | isType => rfl
    | _ => cases probes
  | member => rfl
  | range =>
    rw [evaluateColumns_range]
    rfl
  | @test op x y tests =>
    cases op with
    | eq | ne | compare => rfl
    | basicEq =>
      change isTruthValue (if _ then _ else _)
      split <;> rfl
    | _ => cases tests
  | ordered =>
    change isTruthValue (if _ then _ else _)
    split <;> rfl

end

section

variable {s : Schema} {row : Json} {e : Expr}

theorem Atom.dataType_eq {P Q : Expr → Prop} (h : Atom row P Q e) : e.dataType = .boolean := by
  cases h with
  | @probe op x probes =>
    cases op with
    | missing | present | isType => rfl
    | _ => cases probes
  | @test op x y tests =>
    cases op with
    | eq | ne | compare | basicEq => rfl
    | _ => cases tests
  | member | range | ordered => rfl

theorem Test.isTruth (h : Test s row e) : e.dataType.isTruth := by
  induction h with
  | @const v truth =>
    cases v with
    | null | bool => rfl
    | _ => cases truth
  | field | flag | not | and | or => rfl
  | atom h =>
    rw [h.dataType_eq]
    rfl
  | when hc _ _ ihc ihx ihy =>
    refine isTruth_dataType rfl ?_
    simp only [children, forall_mem_cons]
    exact ⟨ihc, ihx, ihy, forall_mem_nil _⟩
  | case _ _ _ ihc ihx iho =>
    exact isTruth_dataType rfl (forall_mem_children.2 ⟨fun c hc => ⟨ihc c hc, ihx c hc⟩, iho⟩)

end

section

variable {u u' v v' : Json}

section

variable (huu : (u == u')) (hvv : (v == v'))
include huu hvv

theorem apply_congr (op : Inequality) : op.apply u v = op.apply u' v' := by
  rw [apply, apply, (order?_congr huu v).1, (order?_congr hvv u').2]

theorem applyPresent_congr (op : Inequality) : op.applyPresent u v = op.applyPresent u' v' := by
  rw [applyPresent, applyPresent, Json.isMissing_congr huu,
    Json.isMissing_congr hvv, apply_congr huu hvv]

theorem valueEq_congr : u.valueEq v = u'.valueEq v' := by
  rw [valueEq_congr_left huu, valueEq_congr_right _ hvv]

theorem nullEq_congr : u.nullEq v = u'.nullEq v' := by
  rw [nullEq, nullEq, Json.isMissing_congr huu, Json.isMissing_congr hvv, valueEq_congr huu hvv]

end

theorem isIn_congr {set set' : List Json} (huu : (u == u')) (hss : (set == set')) :
    u.isIn set = u'.isIn set' := by
  rw [Json.isIn, Json.isIn, Json.isMissing_congr huu]
  have hany : set.any Json.isNull = set'.any Json.isNull ∧
      set.any u.valueEq = set'.any u'.valueEq := by
    induction set generalizing set' with
    | nil =>
      cases set' with
      | nil => exact ⟨rfl, rfl⟩
      | cons => cases hss
    | cons v rest ih =>
      cases set' with
      | nil => cases hss
      | cons v' rest' =>
        rw [cons_beq_cons, Bool.and_eq_true] at hss
        have hrest := ih hss.2
        rw [any_cons, any_cons, any_cons, any_cons, hrest.1, hrest.2,
          Json.isNull_congr hss.1, valueEq_congr huu hss.1]
        exact ⟨rfl, rfl⟩
  rw [hany.1, hany.2]

variable {s : Schema} {row : Json} {x y : Expr}

/-- What equals an operand is that operand, or an equal constant. -/
theorem Operand.eq_or_const (hx : Operand s row x) (h : Equal x y) :
    y = x ∨ ∃ v w, x = const v ∧ y = const w ∧ v.IsLeaf ∧ (v == w) := by
  cases hx with
  | field => exact .inl h.var
  | settled hx =>
    cases hx with
    | const leaf =>
      obtain ⟨w, rfl, hvw⟩ := h.const
      exact .inr ⟨_, w, rfl, rfl, leaf, hvw⟩
    | column => exact .inl h.var
    | @columns path types stored several =>
      obtain ⟨terms, rfl, hterms⟩ := h.nary
      have hsame : ∀ {types : List DataType} {terms : List Expr},
          Forall₂ Equal (types.map (var path)) terms → terms = types.map (var path) := by
        intro types
        induction types with
        | nil =>
          intro terms h
          cases h
          rfl
        | cons t rest ih =>
          intro terms h
          cases h with
          | cons hhead htail => rw [ih htail, hhead.var, map_cons]
      exact .inl (congrArg coalesce (hsame hterms))

theorem Operand.value_congr (hx : Operand s row x) (h : Equal x y) :
    (x.evaluateColumns row == y.evaluateColumns row) := by
  rcases hx.eq_or_const h with rfl | ⟨v, w, rfl, rfl, -, hvw⟩
  · exact beq_self hx.leaf
  · exact hvw

theorem Atom.holds_congr (h : Atom row (Unknown s row) (Operand s row) x) (heq : Equal x y)
    (b : Bool) : holds row b x = holds row b y := by
  cases h with
  | @probe op x probes operand =>
    obtain ⟨x', rfl, hx⟩ := heq.unary
    rcases operand.1.eq_or_const hx with rfl | ⟨v, w, rfl, -⟩
    · rfl
    · exact Bool.noConfusion operand.2
  | @member x set operand leaves =>
    obtain ⟨x', set', rfl, hx, hset⟩ := heq.member
    rw [holds_of_isPlain rfl, holds_of_isPlain rfl]
    exact isIn_congr (operand.value_congr hx) hset
  | @range x bounds operand limits =>
    obtain ⟨x', bounds', rfl, hx, hbounds⟩ := heq.range
    rw [holds_of_isPlain rfl, holds_of_isPlain rfl, evaluateColumns_range, evaluateColumns_range,
      isTruthy_bool, isTruthy_bool]
    clear heq
    induction hbounds with
    | nil => rfl
    | @cons c d _ _ hcd _ ih =>
      rw [forall_mem_cons] at limits
      rw [all_cons, all_cons, ih limits.2, hcd.1,
        applyPresent_congr (operand.value_congr hx) (limits.1.value_congr hcd.2)]
  | @test op a c tests left right =>
    obtain ⟨a', c', rfl, ha, hc⟩ := heq.binary
    have ha := left.value_congr ha
    have hc := right.value_congr hc
    cases op with
    | eq => exact nullEq_congr ha hc
    | ne => exact congrArg (!·) (nullEq_congr ha hc)
    | compare op => exact applyPresent_congr ha hc op
    | basicEq =>
      rw [holds_basicEq, holds_basicEq, Json.isNull_congr ha,
        Json.isNull_congr hc, valueEq_congr ha hc]
    | _ => cases tests
  | @ordered op a c left right order =>
    obtain ⟨a', c', rfl, ha, hc⟩ := heq.binary
    have ha := left.value_congr ha
    have hc := right.value_congr hc
    rw [holds_basicCompare, holds_basicCompare, Json.isNull_congr ha,
      Json.isNull_congr hc, apply_congr ha hc]

theorem Test.holds_congr (h : Test s row x) (heq : Equal x y) (b : Bool) :
    holds row b x = holds row b y := by
  induction h generalizing y b with
  | const truth =>
    obtain ⟨w, rfl, hvw⟩ := heq.const
    rw [eq_of_isTruthValue truth hvw]
  | field =>
    rw [heq.var]
    rfl
  | flag => rw [heq.var]
  | atom h => exact h.holds_congr heq b
  | not _ ih =>
    refine (connects_holds row).congr rfl ?_ heq b
    exact forall_mem_singleton.2 fun y hy => ih hy
  | and _ ih | or _ ih =>
    refine (connects_holds row).congr rfl ?_ heq b
    exact fun t ht y hy => ih t ht hy
  | when _ _ _ hc hx hy =>
    refine (connects_holds row).congr rfl ?_ heq b
    simp only [children, forall_mem_cons]
    exact ⟨fun y h => hc h, fun y h => hx h, fun y h => hy h, forall_mem_nil _⟩
  | case _ _ _ hc hx ho =>
    refine (connects_holds row).congr rfl (forall_mem_children.2 ?_) heq b
    exact ⟨fun c hmem => ⟨fun y h => hc c hmem h, fun y h => hx c hmem h⟩, fun y h => ho h⟩

end

end Expr

end Snowbank
