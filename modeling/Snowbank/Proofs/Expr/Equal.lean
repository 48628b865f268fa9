import Mathlib.Data.List.Forall2
import Snowbank.Proofs.Expr.Tree

/-!
# Equal Trees

Two equal trees are nodes of the same kind, with equal operands and equal data.
Only constants can differ, by the sign of a zero.

## Main definitions

* `Equal`: Two trees are equal.

## Theorems

* `Equal.const`: What equals a constant is an equal constant.
* `Equal.unary`: What equals an operator has equal operands.
-/

namespace Snowbank.Expr

open List Bool

variable {xs ys : List (Expr × Expr)}

/-- Two trees are equal. -/
def Equal (x y : Expr) : Prop := (x == y)

theorem forall₂_of_test {α : Type} {R : α → α → Prop} {test : List α → List α → Bool}
    (hlonger : ∀ y ys, test [] (y :: ys) = false) (hshorter : ∀ x xs, test (x :: xs) [] = false)
    (hcons : ∀ x xs y ys, test (x :: xs) (y :: ys) → R x y ∧ test xs ys)
    {xs ys : List α} (h : test xs ys) : Forall₂ R xs ys := by
  induction xs generalizing ys with
  | nil =>
    cases ys with
    | nil => exact .nil
    | cons y ys => rw [hlonger] at h; cases h
  | cons x xs ih =>
    cases ys with
    | nil => rw [hshorter] at h; cases h
    | cons y ys => exact .cons (hcons x xs y ys h).1 (ih (hcons x xs y ys h).2)

theorem equal_of_beqList {xs ys : List Expr} (h : beqList xs ys) : Forall₂ Equal xs ys := by
  refine forall₂_of_test (fun _ _ => by simp [beqList]) (fun _ _ => by simp [beqList]) ?_ h
  intro x xs y ys h
  rwa [beqList, and_eq_true] at h

theorem forall₂_of_beqClauses (h : beqClauses xs ys) :
    Forall₂ (fun c d => Equal c.1 d.1 ∧ Equal c.2 d.2) xs ys := by
  refine forall₂_of_test (fun _ _ => by simp [beqClauses]) (fun _ _ => by simp [beqClauses]) ?_ h
  intro x xs y ys h
  rwa [beqClauses, and_eq_true, and_eq_true] at h

theorem forall₂_of_beqBounds {xs ys : List (Inequality × Expr)} (h : beqBounds xs ys) :
    Forall₂ (fun c d => c.1 = d.1 ∧ Equal c.2 d.2) xs ys := by
  refine forall₂_of_test (fun _ _ => by simp [beqBounds]) (fun _ _ => by simp [beqBounds]) ?_ h
  intro x xs y ys h
  rwa [beqBounds, and_eq_true, and_eq_true, beq_iff_eq] at h

theorem equal_of_beqFields {xs ys : List (String × Expr)} (h : beqFields xs ys) :
    Forall₂ Equal (xs.map Prod.snd) (ys.map Prod.snd) := by
  have hfields : Forall₂ (fun c d => Equal c.2 d.2) xs ys := by
    refine forall₂_of_test (fun _ _ => by simp [beqFields]) (fun _ _ => by simp [beqFields]) ?_ h
    intro x xs y ys h
    rw [beqFields, and_eq_true, and_eq_true] at h
    exact ⟨h.1.2, h.2⟩
  rwa [forall₂_map_left_iff, forall₂_map_right_iff]

theorem Equal.children {x y : Expr} (h : Equal x y) :
    Forall₂ Equal x.children y.children ∧ x.isCase = y.isCase := by
  change beq x y = true at h
  rw [beq.eq_def] at h
  split at h <;> try simp only [and_eq_true] at h
  case h_1 | h_2 | h_3 | h_4 | h_5 | h_6 | h_7 => exact ⟨.nil, rfl⟩
  case h_8 => exact ⟨.cons h.2 .nil, rfl⟩
  case h_9 => exact ⟨.cons h.1.2 (.cons h.2 .nil), rfl⟩
  case h_10 => exact ⟨equal_of_beqList h.2, rfl⟩
  case h_11 => exact ⟨.cons h.1.1 (.cons h.1.2 (.cons h.2 .nil)), rfl⟩
  case h_12 =>
    refine ⟨rel_append (rel_flatMap (forall₂_of_beqClauses h.1) ?_) (.cons h.2 .nil), rfl⟩
    exact fun _ _ h => .cons h.1 (.cons h.2 .nil)
  case h_13 | h_14 => exact ⟨.cons h.1 .nil, rfl⟩
  case h_15 => exact ⟨.cons h.1 (rel_map (fun _ _ h => h.2) (forall₂_of_beqBounds h.2)), rfl⟩
  case h_16 => exact ⟨.cons h.1.1.2 (.cons h.1.2 (.cons h.2 .nil)), rfl⟩
  case h_17 => exact ⟨rel_append (equal_of_beqList h.1.1.2) (.cons h.2 .nil), rfl⟩
  case h_18 => exact ⟨rel_append (equal_of_beqList h.1.1) (.cons h.2 .nil), rfl⟩
  case h_19 => exact ⟨.cons h.1.1.1 (.cons h.1.1.2 (.cons h.1.2 (.cons h.2 .nil))), rfl⟩
  case h_20 =>
    exact ⟨.cons h.1.1.1.1 (.cons h.1.1.1.2 (.cons h.1.1.2 (.cons h.1.2 (.cons h.2 .nil)))), rfl⟩
  case h_21 => exact ⟨equal_of_beqFields h, rfl⟩
  case h_22 | h_23 => exact ⟨.cons h.1.1 (.cons h.1.2 (.cons h.2 .nil)), rfl⟩
  case h_24 => cases h

theorem exists_left_of_forall₂ {α β : Type} {R : α → β → Prop} {xs : List α} {ys : List β}
    (h : Forall₂ R xs ys) : ∀ y ∈ ys, ∃ x ∈ xs, R x y := by
  induction h with
  | nil => exact forall_mem_nil _
  | @cons x y xs ys hxy _ ih =>
    refine forall_mem_cons.2 ⟨⟨x, mem_cons_self, hxy⟩, fun z hz => ?_⟩
    obtain ⟨w, hw, hwz⟩ := ih z hz
    exact ⟨w, mem_cons_of_mem _ hw, hwz⟩

namespace Equal

variable {y : Expr}

variable {x a b : Expr}

theorem const {v : Json} (h : Equal (const v) y) : ∃ w, y = .const w ∧ (v == w) := by
  change beq _ y = true at h
  cases y with
  | const w => exact ⟨w, rfl, by simpa [beq] using h⟩
  | _ => simp [beq] at h

theorem var {path : Path} {type : DataType} (h : Equal (var path type) y) : y = .var path type := by
  change beq _ y = true at h
  cases y with
  | var path' type' =>
    simp only [beq, and_eq_true, beq_iff_eq] at h
    rw [h.1, h.2]
  | _ => simp [beq] at h

theorem unary {op : Unary} (h : Equal (unary op x) y) : ∃ x', y = .unary op x' ∧ Equal x x' := by
  change beq _ y = true at h
  cases y with
  | unary op' x' =>
    simp only [beq, and_eq_true, beq_iff_eq] at h
    exact ⟨x', by rw [h.1], h.2⟩
  | _ => simp [beq] at h

theorem binary {op : Binary} (h : Equal (binary op a b) y) :
    ∃ a' b', y = .binary op a' b' ∧ Equal a a' ∧ Equal b b' := by
  change beq _ y = true at h
  cases y with
  | binary op' a' b' =>
    simp only [beq, and_eq_true, beq_iff_eq] at h
    exact ⟨a', b', by rw [h.1.1], h.1.2, h.2⟩
  | _ => simp [beq] at h

theorem nary {op : Nary} {terms : List Expr} (h : Equal (nary op terms) y) :
    ∃ terms', y = .nary op terms' ∧ Forall₂ Equal terms terms' := by
  change beq _ y = true at h
  cases y with
  | nary op' terms' =>
    simp only [beq, and_eq_true, beq_iff_eq] at h
    exact ⟨terms', by rw [h.1], equal_of_beqList h.2⟩
  | _ => simp [beq] at h

theorem when {c : Expr} (h : Equal (when c a b) y) :
    ∃ c' a' b', y = .when c' a' b' ∧ Equal c c' ∧ Equal a a' ∧ Equal b b' := by
  change beq _ y = true at h
  cases y with
  | when c' a' b' =>
    simp only [beq, and_eq_true] at h
    exact ⟨c', a', b', rfl, h.1.1, h.1.2, h.2⟩
  | _ => simp [beq] at h

theorem case {clauses : List (Expr × Expr)} {other : Expr} (h : Equal (case clauses other) y) :
    ∃ clauses' other', y = .case clauses' other' ∧
      Forall₂ (fun c d => Equal c.1 d.1 ∧ Equal c.2 d.2) clauses clauses' ∧
      Equal other other' := by
  change beq _ y = true at h
  cases y with
  | case clauses' other' =>
    simp only [beq, and_eq_true] at h
    exact ⟨clauses', other', rfl, forall₂_of_beqClauses h.1, h.2⟩
  | _ => simp [beq] at h

theorem member {set : List Json} (h : Equal (member x set) y) :
    ∃ x' set', y = .member x' set' ∧ Equal x x' ∧ (set == set') := by
  change beq _ y = true at h
  cases y with
  | member x' set' =>
    simp only [beq, and_eq_true] at h
    exact ⟨x', set', rfl, h.1, h.2⟩
  | _ => simp [beq] at h

theorem range {bounds : List (Inequality × Expr)} (h : Equal (range x bounds) y) :
    ∃ x' bounds', y = .range x' bounds' ∧ Equal x x' ∧
      Forall₂ (fun c d => c.1 = d.1 ∧ Equal c.2 d.2) bounds bounds' := by
  change beq _ y = true at h
  cases y with
  | range x' bounds' =>
    simp only [beq, and_eq_true] at h
    exact ⟨x', bounds', rfl, h.1, forall₂_of_beqBounds h.2⟩
  | _ => simp [beq] at h

end Equal

end Snowbank.Expr
