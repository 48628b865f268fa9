import Snowbank.Service.Session

/-!
# Comparing Doubles

The order of doubles, read off their meaning as sign, mantissa and exponent.

Nothing is assumed of the comparisons that expressions make: every two doubles
that are numbers are in order, a number equals itself, and doubles that are
equal stand in the same order to every other. The last is not plain equality,
since the two zeros are equal and yet two doubles.

## Main definitions

* `meaning`: The meaning of a double.

## Theorems

* `beq_self`: A number equals itself.
* `floatOrder?_isSome`: Numbers are in order.
* `floatOrder?_congr_left`: Equal doubles stand in the same order.
-/

namespace Snowbank.Double

open Option

open Float.Model (UnpackedFloat)

variable {u v : UnpackedFloat} {x y : Float}

/-- Numbers of one sign are compared by exponent, then by mantissa. -/
theorem compare_positive (m n : Nat) (e f : Int) (hm : 0 < m) (hn : 0 < n) :
    (UnpackedFloat.finite .positive m e hm).compare (.finite .positive n f hn) =
      some ((compare e f).then (compare m n)) := rfl

theorem compare_negative (m n : Nat) (e f : Int) (hm : 0 < m) (hn : 0 < n) :
    (UnpackedFloat.finite .negative m e hm).compare (.finite .negative n f hn) =
      some ((compare e f).then (compare m n)).swap := rfl

theorem compare_swap (u v : UnpackedFloat) : v.compare u = (u.compare v).map Ordering.swap := by
  cases u with
  | notANumber => cases v <;> rfl
  | infinity s =>
    cases v with
    | infinity t => cases s <;> cases t <;> rfl
    | _ => cases s <;> rfl
  | zero s =>
    cases v with
    | infinity t | finite t n f k => cases t <;> rfl
    | _ => rfl
  | finite s m e h =>
    cases v with
    | infinity t => cases s <;> cases t <;> rfl
    | notANumber | zero t => cases s <;> rfl
    | finite t n f k =>
      have hexp : compare f e = (compare e f).swap := Std.OrientedCmp.eq_swap
      have hman : compare n m = (compare m n).swap := Std.OrientedCmp.eq_swap
      cases s <;> cases t
      · rw [compare_negative, compare_negative, map_some, hexp, hman, Ordering.swap_then,
          Ordering.swap_then, Ordering.swap_then]
      · rfl
      · rfl
      · rw [compare_positive, compare_positive, map_some, hexp, hman, Ordering.swap_then]

theorem compare_self (u : UnpackedFloat) (h : u.isNaN = false) : u.compare u = some .eq := by
  cases u with
  | notANumber => exact absurd h (by decide)
  | infinity s => cases s <;> rfl
  | zero s => rfl
  | finite s m e k =>
    have hexp : compare e e = .eq := Std.ReflCmp.compare_self
    have hman : compare m m = .eq := Std.ReflCmp.compare_self
    cases s
    · rw [compare_negative, hexp, hman]
      rfl
    · rw [compare_positive, hexp, hman]
      rfl

theorem compare_isSome (u v : UnpackedFloat) (hu : u.isNaN = false) (hv : v.isNaN = false) :
    (u.compare v).isSome := by
  cases u with
  | notANumber => exact absurd hu (by decide)
  | infinity s =>
    cases v with
    | notANumber => exact absurd hv (by decide)
    | _ => cases s <;> rfl
  | zero s =>
    cases v with
    | notANumber => exact absurd hv (by decide)
    | zero t => rfl
    | _ t => cases t <;> rfl
  | finite s m e h =>
    cases v with
    | notANumber => exact absurd hv (by decide)
    | zero t => cases s <;> rfl
    | _ t => cases s <;> cases t <;> rfl

/-- Two numbers that compare as equal are one number, or both are zero. -/
theorem eq_or_zero_of_compare (h : u.compare v = some .eq) :
    u = v ∨ ∃ s t, u = .zero s ∧ v = .zero t := by
  cases u with
  | notANumber => cases v <;> cases h
  | infinity s =>
    cases v with
    | infinity t =>
      cases s <;> cases t
      · exact .inl rfl
      · cases h
      · cases h
      · exact .inl rfl
    | _ => cases s <;> cases h
  | zero s =>
    cases v with
    | zero t => exact .inr ⟨s, t, rfl, rfl⟩
    | notANumber => cases h
    | _ t => cases t <;> cases h
  | finite s m e k =>
    cases v with
    | finite t n f l =>
      -- magnitudes compare by exponent, then by mantissa
      have hparts : ∀ o : Ordering, o = (compare e f).then (compare m n) → o = .eq →
          e = f ∧ m = n := by
        intro o ho heq
        rw [heq, eq_comm, Ordering.then_eq_eq, Std.LawfulEqCmp.compare_eq_iff_eq,
          Std.LawfulEqCmp.compare_eq_iff_eq] at ho
        exact ho
      cases s <;> cases t
      · rw [compare_negative, some.injEq, Ordering.swap_eq_eq] at h
        obtain ⟨rfl, rfl⟩ := hparts _ rfl h
        exact .inl rfl
      · cases h
      · cases h
      · rw [compare_positive, some.injEq] at h
        obtain ⟨rfl, rfl⟩ := hparts _ rfl h
        exact .inl rfl
    | infinity t => cases s <;> cases t <;> cases h
    | _ => cases s <;> cases h

theorem compare_congr (h : u.compare v = some .eq) (w : UnpackedFloat) :
    u.compare w = v.compare w := by
  rcases eq_or_zero_of_compare h with rfl | ⟨s, t, rfl, rfl⟩
  · rfl
  · cases w with
    | infinity r | finite r m e k => cases r <;> rfl
    | _ => rfl

/-- The meaning of a double. -/
def meaning (x : Float) : UnpackedFloat := x.toModel.unpack

theorem lt_iff (x y : Float) : x < y ↔ (meaning x).compare (meaning y) = some .lt := by
  change decide (x.toModel < y.toModel) ↔ _
  rw [decide_eq_true_iff]
  exact beq_iff_eq

theorem beq_iff (x y : Float) : (x == y) ↔ (meaning x).compare (meaning y) = some .eq := by
  change ((meaning x).compare (meaning y) == some .eq) ↔ _
  exact beq_iff_eq

theorem floatOrder?_eq (x y : Float) : Json.floatOrder? x y = (meaning x).compare (meaning y) := by
  unfold Json.floatOrder?
  simp only [lt_iff, beq_iff, compare_swap (meaning x) (meaning y)]
  rcases (meaning x).compare (meaning y) with _ | o
  · rfl
  · cases o <;> rfl

theorem beq_self (x : Float) (h : x.isNaN = false) : (x == x) :=
  (beq_iff x x).2 (compare_self _ h)

theorem isNaN_of_isFinite (h : x.isFinite) : x.isNaN = false := by
  change (meaning x).isFinite = true at h
  change (meaning x).isNaN = false
  cases hu : meaning x with
  | notANumber => rw [hu] at h; exact absurd h (by decide)
  | _ => rfl

theorem floatOrder?_isSome (x y : Float) (hx : x.isNaN = false) (hy : y.isNaN = false) :
    (Json.floatOrder? x y).isSome := by
  rw [floatOrder?_eq]
  exact compare_isSome _ _ hx hy

theorem floatOrder?_congr_left (h : (x == y)) (z : Float) :
    Json.floatOrder? x z = Json.floatOrder? y z := by
  rw [floatOrder?_eq, floatOrder?_eq, compare_congr ((beq_iff x y).1 h)]

theorem floatOrder?_congr_right (h : (x == y)) (z : Float) :
    Json.floatOrder? z x = Json.floatOrder? z y := by
  have hleft := floatOrder?_congr_left h z
  rw [floatOrder?_eq, floatOrder?_eq] at hleft ⊢
  rw [compare_swap (meaning x), compare_swap (meaning y), hleft]

end Snowbank.Double
