import Snowbank.Proofs.Ordered

/-!
# What a Catalog Takes

Publishing a snowflake puts it in the place of its earlier version and queues
the columns that have changed. Nothing else in the catalog changes, neither the
snowflakes of other facts nor what is queued under other keys.

## Main definitions

* `Takes`: A catalog is another one with a new version of a snowflake.

## Theorems

* `takes_publish`: Publishing is that.
-/

namespace Snowbank

open List Ordered Std.LawfulEqCmp

theorem ColumnKey.compare_eq (a b : ColumnKey) : compare a b = (compare a.fact b.fact).then
      ((compare a.name b.name).then ((compare a.type b.type).then .eq)) := rfl

instance : Std.LawfulEqOrd ColumnKey where
  compare_self := by
    intro a
    simp [ColumnKey.compare_eq, Std.ReflCmp.compare_self, Ordering.then]
  eq_of_compare := by
    intro a b h
    simp only [ColumnKey.compare_eq, Ordering.then_eq_eq] at h
    have hfact : a.fact = b.fact := eq_of_compare h.1
    have hname : a.name = b.name := eq_of_compare h.2.1
    have htype : a.type = b.type := eq_of_compare h.2.2.1
    cases a
    cases b
    simp_all only

namespace Catalog

/-- Under each key there is the last column with it that was queued, or what was there before. -/
theorem get?_queue (columns : List Column) (pending : List (ColumnKey × Column)) (key : ColumnKey) :
    get? key (queue columns pending) =
      (columns.reverse.find? fun c => c.key = key).or (get? key pending) := by
  unfold queue
  induction columns generalizing pending with
  | nil => rfl
  | cons c rest ih =>
    rw [foldl_cons, ih, get?_insert, reverse_cons, find?_append, Option.or_assoc]
    congr 1
    by_cases h : key = c.key
    · simp [h]
    · simp [h, Ne.symm h]

/-- A catalog is another one with a new version of a snowflake: that is the
    version without changed columns, as these are queued. -/
structure Takes (before after : Catalog) (s : Snowflake) : Prop where
  snapshot : after.snapshot? s.fact = some s.takeDirty.2
  others : ∀ fact, fact ≠ s.fact → after.snapshot? fact = before.snapshot? fact
  queued : ∀ key, get? key after.pending =
    (s.takeDirty.1.reverse.find? fun c => c.key = key).or (get? key before.pending)

theorem takes_publish (c : Catalog) (s : Snowflake) : c.Takes (c.publish s) s where
  snapshot := get?_insert_self _ _ _
  others := fun _ hother => get?_insert_of_ne hother _ _
  queued := get?_queue _ _

/-- Every snowflake is kept under its own name. -/
def Named (c : Catalog) : Prop := ∀ fact s, c.snapshot? fact = some s → s.fact = fact

theorem Takes.named {before after : Catalog} {s : Snowflake} (h : before.Takes after s)
    (hnamed : before.Named) : after.Named := by
  intro fact t hfound
  by_cases hfact : fact = s.fact
  · rw [hfact, h.snapshot] at hfound
    rw [← Option.some.inj hfound, hfact]
    rfl
  · rw [h.others fact hfact] at hfound
    exact hnamed fact t hfound

end Catalog

end Snowbank
