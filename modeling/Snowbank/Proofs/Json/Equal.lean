import Snowbank.Proofs.Number.Double

/-!
# Equal Values Compare Alike

Values that are equal as JSON can differ by the sign of a zero, and nothing that
looks at values tells them apart: neither equality of values nor their order.

## Main definitions

* `Alike`: Two values are the same, or equal.

## Theorems

* `Alike.valueEq`: Values that are alike equal the same values.
* `Alike.order?_eq`: They stand in the same order to others.
-/

namespace Snowbank

open Bool

namespace Double

theorem beq_congr_left {x y : Float} (h : (x == y)) (z : Float) : (x == z) = (y == z) := by
  rw [Bool.eq_iff_iff, beq_iff, beq_iff, compare_congr ((beq_iff x y).1 h)]

theorem beq_comm (x y : Float) : (x == y) = (y == x) := by
  rw [Bool.eq_iff_iff, beq_iff, beq_iff, compare_swap (meaning x) (meaning y)]
  rcases (meaning x).compare (meaning y) with _ | (_ | _ | _) <;> decide

end Double

variable {a b : Number}

theorem Number.eq_or_float_of_beq (h : (a == b)) :
    a = b ∨ ∃ x y, a = .float x ∧ b = .float y ∧ (x == y) := by
  cases a with
  | int n =>
    cases b with
    | int m => exact .inl (congrArg _ (eq_of_beq h))
    | float y => cases h
  | float x =>
    cases b with
    | int m => cases h
    | float y => exact .inr ⟨x, y, rfl, rfl, h⟩

theorem Number.toFloat_beq_congr_left (h : (a == b)) (z : Float) :
    (a.toFloat == z) = (b.toFloat == z) := by
  rcases eq_or_float_of_beq h with rfl | ⟨x, y, rfl, rfl, hxy⟩
  · rfl
  · exact Double.beq_congr_left hxy z

theorem Number.beq_congr_left (h : (a == b)) (c : Number) : (a == c) = (b == c) := by
  rcases eq_or_float_of_beq h with rfl | ⟨x, y, rfl, rfl, hxy⟩
  · rfl
  · cases c with
    | int => rfl
    | float z => exact Double.beq_congr_left hxy z

theorem Number.beq_comm (a b : Number) : (a == b) = (b == a) := by
  cases a with
  | int n =>
    cases b with
    | int m => exact (BEq.comm : (n == m) = (m == n))
    | float y => rfl
  | float x =>
    cases b with
    | int m => rfl
    | float y => exact Double.beq_comm x y

namespace Json

mutual

theorem beq_congr_left {u v : Json} (h : beq u v) (w : Json) : beq u w = beq v w := by
  cases u with
  | arr us =>
    cases v with
    | arr vs =>
      cases w with
      | arr ws => exact beqItems_congr_left h ws
      | _ => rfl
    | _ => cases h
  | obj us =>
    cases v with
    | obj vs =>
      cases w with
      | obj ws => exact beqFields_congr_left h ws
      | _ => rfl
    | _ => cases h
  | num a =>
    cases v with
    | num b =>
      cases w with
      | num c => exact Number.beq_congr_left h c
      | _ => rfl
    | _ => cases h
  | null =>
    cases v with
    | null => rfl
    | _ => cases h
  | bool a =>
    cases v with
    | bool b => rw [eq_of_beq h]
    | _ => cases h
  | str a =>
    cases v with
    | str b => rw [eq_of_beq h]
    | _ => cases h
termination_by structural u

theorem beqItems_congr_left {us vs : List Json} (h : beqItems us vs) (ws : List Json) :
    beqItems us ws = beqItems vs ws := by
  cases us with
  | nil =>
    cases vs with
    | nil => rfl
    | cons => cases h
  | cons u us =>
    cases vs with
    | nil => cases h
    | cons v vs =>
      cases ws with
      | nil => rfl
      | cons w ws =>
        rw [beqItems, and_eq_true] at h
        rw [beqItems, beqItems, beq_congr_left h.1, beqItems_congr_left h.2]
termination_by structural us

theorem beqFields_congr_left {us vs : Fields} (h : beqFields us vs) (ws : Fields) :
    beqFields us ws = beqFields vs ws := by
  cases us with
  | nil =>
    cases vs with
    | nil => rfl
    | cons => cases h
  | cons u us =>
    cases vs with
    | nil => cases h
    | cons v vs =>
      cases ws with
      | nil => rfl
      | cons w ws =>
        rw [beqFields, and_eq_true, and_eq_true, beq_iff_eq] at h
        rw [beqFields, beqFields, h.1.1, beq_congr_left h.1.2, beqFields_congr_left h.2]
termination_by structural us

end

mutual

theorem beq_comm (u v : Json) : beq u v = beq v u := by
  cases u with
  | arr us =>
    cases v with
    | arr vs => exact beqItems_comm us vs
    | _ => rfl
  | obj us =>
    cases v with
    | obj vs => exact beqFields_comm us vs
    | _ => rfl
  | num a =>
    cases v with
    | num b => exact Number.beq_comm a b
    | _ => rfl
  | null => cases v <;> rfl
  | bool a =>
    cases v with
    | bool b => exact BEq.comm
    | _ => rfl
  | str a =>
    cases v with
    | str b => exact BEq.comm
    | _ => rfl
termination_by structural u

theorem beqItems_comm (us vs : List Json) : beqItems us vs = beqItems vs us := by
  cases us with
  | nil => cases vs <;> rfl
  | cons u us =>
    cases vs with
    | nil => rfl
    | cons v vs => rw [beqItems, beqItems, beq_comm u v, beqItems_comm us vs]
termination_by structural us

theorem beqFields_comm (us vs : Fields) : beqFields us vs = beqFields vs us := by
  cases us with
  | nil => cases vs <;> rfl
  | cons u us =>
    cases vs with
    | nil => rfl
    | cons v vs =>
      rw [beqFields, beqFields, beq_comm u.2 v.2, beqFields_comm us vs,
        show (u.1 == v.1) = (v.1 == u.1) from BEq.comm]
termination_by structural us

end

theorem beq_congr_right {u v : Json} (h : beq u v) (w : Json) : beq w u = beq w v := by
  rw [beq_comm w u, beq_comm w v, beq_congr_left h]

section

variable {u v : Json}

theorem isNull_congr (h : (u == v)) : u.isNull = v.isNull := by
  cases u <;> cases v <;> first | rfl | cases h

theorem isMissing_congr (h : (u == v)) : u.isMissing = v.isMissing := by
  cases u with
  | arr us =>
    cases v with
    | arr vs => cases us <;> cases vs <;> first | rfl | cases h
    | _ => cases h
  | _ => cases v <;> first | rfl | cases h

theorem num_of_beq {a : Number} (h : (num a == v)) : ∃ b, v = num b ∧ (a == b) := by
  cases v with
  | num b => exact ⟨b, rfl, h⟩
  | _ => cases h

theorem order?_congr (h : (u == v)) (w : Json) :
    order? u w = order? v w ∧ order? w u = order? w v := by
  cases u with
  | num a =>
    obtain ⟨b, rfl, hab⟩ := num_of_beq h
    rcases Number.eq_or_float_of_beq hab with rfl | ⟨x, y, rfl, rfl, hxy⟩
    · exact ⟨rfl, rfl⟩
    · cases w with
      | num c =>
        exact ⟨Double.floatOrder?_congr_left hxy c.toFloat,
          Double.floatOrder?_congr_right hxy c.toFloat⟩
      | _ => exact ⟨rfl, rfl⟩
  | _ =>
    change beq _ v = true at h
    cases v <;> first
      | (cases w <;> exact ⟨rfl, rfl⟩) | exact Bool.noConfusion h | exact eq_of_beq h ▸ ⟨rfl, rfl⟩

theorem leafEq_congr_left (h : (u == v)) (w : Json) : leafEq u w = leafEq v w := by
  cases u with
  | num a =>
    obtain ⟨b, rfl, hab⟩ := num_of_beq h
    cases w with
    | num c => exact Number.toFloat_beq_congr_left hab c.toFloat
    | _ => rfl
  | _ =>
    have hcongr := beq_congr_left h w
    cases v with
    | num b => cases h
    | _ => exact hcongr

theorem leafEq_comm (u v : Json) : leafEq u v = leafEq v u := by
  cases u with
  | num a =>
    cases v with
    | num b => exact Double.beq_comm a.toFloat b.toFloat
    | _ => rfl
  | _ =>
    cases v with
    | num b => rfl
    | _ => exact beq_comm _ _

end

section

variable {v u : Json}

/-- The value is not an array. -/
def isSingle : Json → Bool
  | .arr _ => false
  | _ => true

theorem equalsOneOf_of_isSingle (h : v.isSingle) (u : Json) : equalsOneOf u v = leafEq u v := by
  cases v with
  | arr => cases h
  | _ => rfl

theorem isSingle_congr (h : (u == v)) : u.isSingle = v.isSingle := by
  cases u <;> cases v <;> first | rfl | cases h

mutual

theorem equalsOneOf_congr_left {u v : Json} (h : (u == v)) (w : Json) :
    equalsOneOf u w = equalsOneOf v w := by
  cases w with
  | arr items => exact equalsAny_congr_left h items
  | _ => exact leafEq_congr_left h _
termination_by structural w

theorem equalsAny_congr_left {u v : Json} (h : (u == v)) (items : List Json) :
    equalsAny u items = equalsAny v items := by
  cases items with
  | nil => rfl
  | cons w rest =>
    rw [equalsAny, equalsAny, equalsOneOf_congr_left h w, equalsAny_congr_left h rest]
termination_by structural items

end

theorem valueEq_of_isSingle (h : u.isSingle) (v : Json) : valueEq u v = equalsOneOf u v := by
  cases u with
  | arr => cases h
  | _ => simp [valueEq]

theorem valueEq_arr_of_isSingle (h : v.isSingle) (us : List Json) :
    valueEq (.arr us) v = anyEq us v := by
  cases v with
  | arr => cases h
  | _ => rw [valueEq]; rintro _ ⟨⟩

mutual

theorem valueEq_congr_left {u v : Json} (h : (u == v)) (w : Json) : u.valueEq w = v.valueEq w := by
  cases u with
  | arr us =>
    change beq _ v = true at h
    cases v with
    | arr vs =>
      cases w with
      | arr ws =>
        rw [valueEq, valueEq]
        exact itemsEq_congr_left h ws
      | _ =>
        rw [valueEq_arr_of_isSingle rfl, valueEq_arr_of_isSingle rfl]
        exact anyEq_congr_left h _
    | _ => cases h
  | _ =>
    rw [valueEq_of_isSingle rfl, valueEq_of_isSingle (isSingle_congr h).symm]
    exact equalsOneOf_congr_left h w
termination_by structural u

theorem itemsEq_congr_left {us vs : List Json} (h : beqItems us vs) (ws : List Json) :
    itemsEq us ws = itemsEq vs ws := by
  cases us with
  | nil =>
    cases vs with
    | nil => rfl
    | cons => cases h
  | cons u us =>
    cases vs with
    | nil => cases h
    | cons v vs =>
      cases ws with
      | nil => simp [itemsEq]
      | cons w ws =>
        rw [beqItems, and_eq_true] at h
        rw [itemsEq, itemsEq, valueEq_congr_left h.1, itemsEq_congr_left h.2]
termination_by structural us

theorem anyEq_congr_left {us vs : List Json} (h : beqItems us vs) (w : Json) :
    anyEq us w = anyEq vs w := by
  cases us with
  | nil =>
    cases vs with
    | nil => rfl
    | cons => cases h
  | cons u us =>
    cases vs with
    | nil => cases h
    | cons v vs =>
      rw [beqItems, and_eq_true] at h
      rw [anyEq, anyEq, valueEq_congr_left h.1, anyEq_congr_left h.2]
termination_by structural us

end

mutual

theorem valueEq_single (h : v.isSingle) (u : Json) : valueEq u v = equalsOneOf v u := by
  cases u with
  | arr us =>
    rw [valueEq_arr_of_isSingle h]
    exact anyEq_single h us
  | _ =>
    rw [valueEq_of_isSingle rfl, equalsOneOf_of_isSingle h]
    exact leafEq_comm _ _
termination_by structural u

theorem anyEq_single (h : v.isSingle) (us : List Json) : anyEq us v = equalsAny v us := by
  cases us with
  | nil => rfl
  | cons u us => rw [anyEq, equalsAny, valueEq_single h u, anyEq_single h us]
termination_by structural us

end

mutual

theorem valueEq_comm (u v : Json) : u.valueEq v = v.valueEq u := by
  cases u with
  | arr us =>
    cases v with
    | arr vs =>
      rw [valueEq, valueEq]
      exact itemsEq_comm us vs
    | _ => rw [valueEq_single rfl, valueEq_of_isSingle rfl]
  | _ => rw [valueEq_of_isSingle rfl, valueEq_single rfl]
termination_by structural u

theorem itemsEq_comm (us vs : List Json) : itemsEq us vs = itemsEq vs us := by
  cases us with
  | nil => cases vs <;> rfl
  | cons u us =>
    cases vs with
    | nil => rfl
    | cons v vs => rw [itemsEq, itemsEq, valueEq_comm u v, itemsEq_comm us vs]
termination_by structural us

end

theorem valueEq_congr_right (u : Json) {v w : Json} (h : (v == w)) : u.valueEq v = u.valueEq w := by
  rw [valueEq_comm u v, valueEq_comm u w, valueEq_congr_left h]

end

end Json

/-- Two values are the same, or equal. -/
def Json.Alike (u v : Json) : Prop := u = v ∨ (u == v)

namespace Json.Alike

variable {u u' v v' : Json}

theorem isNull (h : Alike u v) : u.isNull = v.isNull := by
  rcases h with rfl | h
  · rfl
  · exact isNull_congr h

theorem valueEq (hu : Alike u u') (hv : Alike v v') : u.valueEq v = u'.valueEq v' := by
  have hleft : u.valueEq v = u'.valueEq v := by
    rcases hu with rfl | hu
    · rfl
    · exact valueEq_congr_left hu v
  rw [hleft]
  rcases hv with rfl | hv
  · rfl
  · exact valueEq_congr_right u' hv

theorem order?_eq (hu : Alike u u') (hv : Alike v v') : order? u v = order? u' v' := by
  have hleft : order? u v = order? u' v := by
    rcases hu with rfl | hu
    · rfl
    · exact (order?_congr hu v).1
  rw [hleft]
  rcases hv with rfl | hv
  · rfl
  · exact (order?_congr hv u').2

end Json.Alike

end Snowbank
