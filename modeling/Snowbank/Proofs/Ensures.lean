import Snowbank.Service.Session

/-!
# What a Computation Ensures

A computation that may fail ensures a property when each result it can have
satisfies the property. Whether there is a result is another question.

The lemmas take a computation apart in the order in which it runs, so a proof
about a chain of steps names what each step ensures and never looks at the
ways to fail.

## Main definitions

* `Ensures`: Every result of the computation has the property.

## Theorems

* `Ensures.bind`: A step needs what the one before it ensures.
* `Ensures.mapM`: The results of a list are those of its items.
-/

namespace Snowbank

open List

/-- Every result of the computation has the property. -/
def Ensures {ε α : Type} (P : α → Prop) (x : Except ε α) : Prop := ∀ v, x = .ok v → P v

namespace Ensures

variable {ε α β : Type} {P : α → Prop} {Q : β → Prop} {x : Except ε α}

variable {v : α} {f : α → Except ε β}

theorem ok (h : P v) : Ensures P (.ok v : Except ε α) := by
  rintro w hw
  cases hw
  exact h

theorem pure (h : P v) : Ensures P (Pure.pure v : Except ε α) := ok h

theorem error (e : ε) : Ensures P (.error e : Except ε α) := by
  rintro v hv
  cases hv

theorem throw (e : ε) : Ensures P (MonadExcept.throw e : Except ε α) := error e

theorem imp {R : α → Prop} (hx : Ensures P x) (h : ∀ v, P v → R v) : Ensures R x :=
  fun v hv => h v (hx v hv)

theorem bind (hx : Ensures P x) (hf : ∀ v, P v → Ensures Q (f v)) : Ensures Q (x >>= f) := by
  cases x with
  | error e => exact error e
  | ok v => exact hf v (hx v rfl)

/-- Nothing need be known of the result of the first step. -/
theorem after (hf : ∀ v, Ensures Q (f v)) : Ensures Q (x >>= f) :=
  bind (P := fun _ => True) (fun _ _ => trivial) fun v _ => hf v

theorem map {f : α → β} (hx : Ensures P x) (hf : ∀ v, P v → Q (f v)) : Ensures Q (x.map f) := by
  cases x with
  | error e => exact error e
  | ok v => exact ok (hf v (hx v rfl))

theorem mapM {xs : List α} (h : ∀ a ∈ xs, Ensures Q (f a)) :
    Ensures (fun ys => ∀ y ∈ ys, Q y) (xs.mapM f) := by
  induction xs with
  | nil => exact pure (forall_mem_nil _)
  | cons a rest ih =>
    rw [forall_mem_cons] at h
    rw [mapM_cons]
    refine bind h.1 fun y hy => bind (ih h.2) fun ys hys => pure ?_
    exact forall_mem_cons.2 ⟨hy, hys⟩

end Ensures

end Snowbank
