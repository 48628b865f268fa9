import Mathlib.Data.List.Pairwise
import Snowbank.Service.Session

/-!
# Facts about Ordered Association Lists

What is read back from a map after it has been written to, and that maps and
sets stay in order.

Reading does not depend on the order: a key that was written is found before
any older entry with it, wherever it was put. So only the lemmas about order,
and about a key having a single entry, ask for a list that is in order.

## Main definitions

* `Increasing`: Every element comes before all that follow it.

## Theorems

* `get?_insert`: What was written under a key is read there.
* `mem_elems`: The set of a list has its elements.
* `perm_sortBy`: Sorting loses nothing and adds nothing.
-/

namespace Snowbank

open List Std.LawfulEqCmp

namespace Ordered

variable {κ α : Type} [Ord κ]

section

variable {key : κ} {entries : List (κ × α)}

variable {value : α} {entry : κ × α} {other key : κ}

theorem mem_insert
    (h : entry ∈ insert key value entries) : entry = (key, value) ∨ entry ∈ entries := by
  induction entries with
  | nil => exact .inl (mem_singleton.1 h)
  | cons other rest ih =>
    rw [insert] at h
    split at h
    · exact mem_cons.1 h
    · rcases mem_cons.1 h with h | h
      · exact .inl h
      · exact .inr (.tail _ h)
    · rcases mem_cons.1 h with h | h
      · exact .inr (h ▸ mem_cons_self)
      · exact (ih h).imp_right (mem_cons_of_mem _)

theorem mem_foldl_insert {found : List (κ × α)}
    (h : entry ∈ entries.foldl (fun map (key, value) => insert key value map) found) :
    entry ∈ entries ∨ entry ∈ found := by
  induction entries generalizing found with
  | nil => exact .inr h
  | cons first rest ih =>
    rw [foldl_cons] at h
    rcases ih h with h | h
    · exact .inl (.tail _ h)
    · rcases mem_insert h with rfl | h
      · exact .inl mem_cons_self
      · exact .inr h

variable [Std.LawfulEqOrd κ]

@[simp] theorem get?_insert_self (key : κ) (value : α) (entries : List (κ × α)) :
    get? key (insert key value entries) = some value := by
  have hself : compare key key = .eq := Std.ReflCmp.compare_self
  induction entries with
  | nil => rw [insert, get?, hself]
  | cons other rest ih =>
    rw [insert]
    cases horder : compare key other.1 with
    | lt | eq => rw [get?, hself]
    | gt =>
      rw [get?, horder]
      exact ih

theorem get?_insert_of_ne (hne : key ≠ other) (value : α)
    (entries : List (κ × α)) : get? key (insert other value entries) = get? key entries := by
  -- an entry with another key is passed over
  have hskip : ∀ (v : α) rest, get? key ((other, v) :: rest) = get? key rest := by
    intro v rest
    rw [get?]
    split
    next heq => exact absurd (eq_of_compare heq) hne
    · rfl
  induction entries with
  | nil => exact hskip value []
  | cons entry rest ih =>
    obtain ⟨k, v⟩ := entry
    rw [insert]
    split
    · exact hskip value _
    next heq =>
      have hk : other = k := eq_of_compare heq
      rw [hskip, ← hk, hskip]
    · simp [get?, ih]

theorem get?_insert [DecidableEq κ] (key other : κ) (value : α) (entries : List (κ × α)) :
    get? key (insert other value entries) =
      if key = other then some value else get? key entries := by
  by_cases h : key = other
  · rw [if_pos h, h, get?_insert_self]
  · rw [if_neg h, get?_insert_of_ne h]

theorem insert_insert_self (key : κ) (first last : α) (entries : List (κ × α)) :
    insert key last (insert key first entries) = insert key last entries := by
  have hself : compare key key = .eq := Std.ReflCmp.compare_self
  induction entries with
  | nil => simp [insert]
  | cons entry rest ih =>
    obtain ⟨k, v⟩ := entry
    rw [insert, insert]
    cases hk : compare key k with
    | lt | eq => simp [insert]
    | gt => simp [insert, hk, ih]

omit [Std.LawfulEqOrd κ] in
theorem insert_comm_of_lt [Std.TransOrd κ] (h : compare key other = .lt) (a b : α)
    (entries : List (κ × α)) :
    insert key a (insert other b entries) = insert other b (insert key a entries) := by
  have hgt : compare other key = .gt := Std.OrientedCmp.gt_of_lt h
  induction entries with
  | nil => simp only [insert, h, hgt]
  | cons entry rest ih =>
    obtain ⟨k, v⟩ := entry
    have hbefore : (compare other k).isLE → compare key k = .lt :=
      Std.TransCmp.lt_of_lt_of_isLE h
    cases hother : compare other k with
    | lt | eq => simp only [insert, hother, h, hbefore (hother ▸ rfl), hgt]
    | gt => cases hkey : compare key k <;> simp only [insert, hother, hkey, hgt, ih]

theorem insert_comm [Std.TransOrd κ] (h : key ≠ other) (a b : α) (entries : List (κ × α)) :
    insert key a (insert other b entries) = insert other b (insert key a entries) := by
  cases horder : compare key other with
  | lt => exact insert_comm_of_lt horder a b entries
  | eq => exact absurd (eq_of_compare horder) h
  | gt => exact (insert_comm_of_lt (Std.OrientedCmp.lt_of_gt horder) b a entries).symm

omit [Std.LawfulEqOrd κ] in
theorem insert_eq_append (h : ∀ entry ∈ entries, compare key entry.1 = .gt) (value : α) :
    insert key value entries = entries ++ [(key, value)] := by
  induction entries with
  | nil => rfl
  | cons entry rest ih =>
    rw [insert, h entry mem_cons_self, ih fun e he => h e (.tail _ he)]
    rfl

theorem mem_of_get? (h : get? key entries = some value) : (key, value) ∈ entries := by
  induction entries with
  | nil => exact absurd h (by simp [get?])
  | cons entry rest ih =>
    obtain ⟨k, v⟩ := entry
    rw [get?] at h
    split at h
    next heq =>
      rw [eq_of_compare heq, Option.some.inj h]
      exact mem_cons_self
    · exact mem_cons_of_mem _ (ih h)

theorem perm_insert (h : key ∉ entries.map Prod.fst) :
    (insert key value entries).Perm ((key, value) :: entries) := by
  induction entries with
  | nil => exact .refl _
  | cons entry rest ih =>
    simp only [map_cons, mem_cons, not_or] at h
    rw [insert]
    split
    · exact .refl _
    next heq => exact absurd (eq_of_compare heq) h.1
    · exact ((ih h.2).cons entry).trans (.swap ..)

end

section

variable {key x : κ} {set keys : List κ}

theorem mem_insertElem [Std.LawfulEqOrd κ] : x ∈ insertElem key set ↔ x = key ∨ x ∈ set := by
  induction set with
  | nil => simp [insertElem]
  | cons k rest ih =>
    rw [insertElem]
    split
    · rw [mem_cons]
    next heq =>
      have hk : key = k := eq_of_compare heq
      rw [hk, mem_cons]
      exact ⟨Or.inr, fun h => h.elim Or.inl id⟩
    · rw [mem_cons, mem_cons, ih]
      exact or_left_comm

theorem mem_foldl_insertElem [Std.LawfulEqOrd κ] :
    x ∈ keys.foldl (fun set key => insertElem key set) set ↔ x ∈ set ∨ x ∈ keys := by
  induction keys generalizing set with
  | nil => simp
  | cons key rest ih => rw [foldl_cons, ih, mem_insertElem, mem_cons, or_assoc, or_left_comm]

theorem mem_elems [Std.LawfulEqOrd κ] : x ∈ elems keys ↔ x ∈ keys := by
  rw [elems, mem_foldl_insertElem]
  simp

theorem filter_insertElem {p : κ → Bool} (hkey : p key = false) (set : List κ) :
    (insertElem key set).filter p = set.filter p := by
  have hskip : ∀ rest : List κ, (key :: rest).filter p = rest.filter p := fun rest =>
    filter_cons_of_neg (by rw [hkey]; exact Bool.false_ne_true)
  induction set with
  | nil => exact hskip []
  | cons k rest ih =>
    rw [insertElem]
    split
    · exact hskip _
    · rfl
    · rw [filter_cons, filter_cons, ih]

/-- Every element comes before all that follow it. -/
def Increasing (set : List κ) : Prop := set.Pairwise fun a b => compare a b = .lt

instance (set : List κ) : Decidable (Increasing set) := inferInstanceAs (Decidable (Pairwise _ _))

variable [Std.TransOrd κ]

theorem Increasing.nodup (h : Increasing set) : set.Nodup := h.imp fun {a b} hlt heq => by
    have hself : compare b b = .eq := Std.ReflCmp.compare_self
    rw [heq, hself] at hlt
    cases hlt

theorem increasing_insertElem [Std.LawfulEqOrd κ]
    (h : Increasing set) : Increasing (insertElem key set) := by
  induction set with
  | nil => exact pairwise_singleton _ _
  | cons k rest ih =>
    rw [insertElem]
    split
    next hlt =>
      refine Pairwise.cons (fun x hx => ?_) h
      rcases mem_cons.1 hx with rfl | hx
      · exact hlt
      · exact Std.TransCmp.lt_trans hlt (rel_of_pairwise_cons h hx)
    · exact h
    next hgt =>
      refine Pairwise.cons (fun x hx => ?_) (ih h.of_cons)
      rcases mem_insertElem.1 hx with rfl | hx
      · exact Std.OrientedCmp.lt_of_gt hgt
      · exact rel_of_pairwise_cons h hx

theorem increasing_elems [Std.LawfulEqOrd κ] (keys : List κ) : Increasing (elems keys) := by
  have hfold : ∀ (rest set : List κ), Increasing set →
      Increasing (rest.foldl (fun set key => insertElem key set) set) := by
    intro rest
    induction rest with
    | nil => exact fun set h => h
    | cons key rest ih => exact fun set h => ih _ (increasing_insertElem h)
  exact hfold keys [] Pairwise.nil

end

section

variable {le : α → α → Bool}

variable {xs : List α}

theorem perm_insertBy (x : α) (xs : List α) : (insertBy le x xs).Perm (x :: xs) := by
  induction xs with
  | nil => exact Perm.refl _
  | cons y rest ih =>
    rw [insertBy]
    split
    · exact Perm.refl _
    · exact (ih.cons y).trans (Perm.swap x y rest)

theorem perm_sortBy (xs : List α) : (sortBy le xs).Perm xs := by
  induction xs with
  | nil => exact Perm.refl _
  | cons x rest ih => exact (perm_insertBy x _).trans (ih.cons x)

theorem sortBy_of_pairwise (h : xs.Pairwise fun a b => le a b) : sortBy le xs = xs := by
  induction xs with
  | nil => rfl
  | cons x rest ih =>
    obtain ⟨hfirst, hrest⟩ := pairwise_cons.1 h
    change insertBy le x (sortBy le rest) = _
    rw [ih hrest]
    cases rest with
    | nil => rfl
    | cons y rest => rw [insertBy, if_pos (hfirst y mem_cons_self)]


theorem pairwise_insertBy (htotal : ∀ a b, le a b = false → le b a)
    (htrans : ∀ a b c, le a b → le b c → le a c) (x : α) (h : xs.Pairwise fun a b => le a b) :
    (insertBy le x xs).Pairwise fun a b => le a b := by
  induction xs with
  | nil => exact pairwise_singleton _ _
  | cons y rest ih =>
    rw [insertBy]
    split
    next hle =>
      refine Pairwise.cons (fun z hz => ?_) h
      rcases mem_cons.1 hz with rfl | hz
      · exact hle
      · exact htrans _ _ _ hle (rel_of_pairwise_cons h hz)
    next hnot =>
      refine Pairwise.cons (fun z hz => ?_) (ih h.of_cons)
      rcases mem_cons.1 ((perm_insertBy x rest).mem_iff.1 hz) with rfl | hz
      · exact htotal _ _ (Bool.eq_false_iff.2 hnot)
      · exact rel_of_pairwise_cons h hz

theorem pairwise_sortBy (le : α → α → Bool) (htotal : ∀ a b, le a b = false → le b a)
    (htrans : ∀ a b c, le a b → le b c → le a c) (xs : List α) :
    (sortBy le xs).Pairwise fun a b => le a b := by
  induction xs with
  | nil => exact Pairwise.nil
  | cons x rest ih => exact pairwise_insertBy htotal htrans x ih

end

theorem map_fst_zipIdx {β γ : Type} (f : β → γ) (xs : List β) :
    (xs.zipIdx.map fun x => f x.1) = xs.map f :=
  (map_map ..).symm.trans (congrArg (map f) (zipIdx_map_fst 0 xs))

end Ordered

namespace DataType

theorem compare_eq_ctorIdx (a b : DataType) : compare a b = compare a.ctorIdx b.ctorIdx := by
  cases a <;> cases b <;> rfl

instance : Std.TransOrd DataType where
  eq_swap := by
    intro a b
    rw [compare_eq_ctorIdx, compare_eq_ctorIdx]
    exact Std.OrientedCmp.eq_swap
  isLE_trans := by
    intro a b c
    rw [compare_eq_ctorIdx, compare_eq_ctorIdx, compare_eq_ctorIdx]
    exact Std.TransCmp.isLE_trans

instance : Std.LawfulEqOrd DataType where
  eq_of_compare := by
    intro a b
    cases a <;> cases b <;> decide

end DataType

end Snowbank
