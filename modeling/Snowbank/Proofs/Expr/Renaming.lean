import Mathlib.Data.List.Sort
import Snowbank.Proofs.Expr.Over

/-!
# Renaming

Reading other paths is a substitution: an expression over renamed paths has the
value on one document that the expression itself has on every document which
holds, at each path that is read, what the first one holds at the new path.

## Main definitions

* `renamed`: The path that is read in the place of another.

## Theorems

* `evaluate_rename`: Renaming is a substitution.
-/

namespace Snowbank

open List hiding set

theorem Ordered.elems_congr {κ : Type} [Ord κ] [Std.TransOrd κ] [Std.LawfulEqOrd κ] {xs ys : List κ}
    (h : ∀ x, x ∈ xs ↔ x ∈ ys) : elems xs = elems ys := by
  have hperm : (elems xs).Perm (elems ys) := by
    refine (perm_ext_iff_of_nodup (increasing_elems xs).nodup (increasing_elems ys).nodup).2 ?_
    intro x
    rw [mem_elems, mem_elems, h]
  refine hperm.eq_of_pairwise (fun a b _ _ hab hba => ?_) (increasing_elems xs)
    (increasing_elems ys)
  have hswap : compare b a = (compare a b).swap := Std.OrientedCmp.eq_swap
  rw [hswap, hab] at hba
  cases hba

namespace Expr

/-- The path that is read in the place of another. -/
def renamed (names : List (Path × Path)) (path : Path) : Path :=
  (Ordered.get? path names).getD path

theorem mem_vars_leaf {e : Expr} (h : e.children = []) {path : Path} :
    path ∈ e.vars ↔ e.path? = some path := by
  rw [mem_vars, h]
  simp

theorem mem_vars_mapPath (m : Path → Path) (e : Expr) (path : Path) :
    path ∈ (e.mapLeaves (mapPath m)).vars ↔ ∃ p ∈ e.vars, m p = path := by
  induction e using induction_children with
  | step e ih =>
    cases hleaf : e.isLeaf with
    | true =>
      have hown : e.mapLeaves (mapPath m) = e.mapPath m ∧ e.children = [] ∧
          (e.mapPath m).children = [] ∧ (e.mapPath m).path? = e.path?.map m := by
        cases e with
        | const | date | offset | script | var | leaves | rows => exact ⟨rfl, rfl, rfl, rfl⟩
        | _ => cases hleaf
      rw [hown.1, mem_vars_leaf hown.2.2.1, hown.2.2.2, Option.map_eq_some_iff]
      simp [mem_vars_leaf hown.2.1]
    | false =>
      have hpath : ∀ g, (e.mapChildren g).path? = none ∧ e.path? = none := by
        intro g
        cases e with
        | const | date | offset | script | var | leaves | rows => cases hleaf
        | _ => exact ⟨rfl, rfl⟩
      rw [mapLeaves_eq hleaf, mem_vars, (hpath _).1, children_mapChildren]
      simp only [mem_vars (e := e), (hpath id).2, reduceCtorEq, false_or, mem_map,
        exists_exists_and_eq_and]
      constructor
      · rintro ⟨c, hc, hmem⟩
        obtain ⟨p, hp, rfl⟩ := (ih c hc).1 hmem
        exact ⟨p, ⟨c, hc, hp⟩, rfl⟩
      · rintro ⟨p, ⟨c, hc, hp⟩, rfl⟩
        exact ⟨c, hc, (ih c hc).2 ⟨p, hp, rfl⟩⟩

/-- The node is an item of a row that is an array. -/
def isOffset : Expr → Bool
  | offset _ => true
  | _ => false

/-- Renaming is a substitution. The second document holds at each path that is
    read what the first one holds at the path that is read in its place. -/
theorem evaluate_rename (names : List (Path × Path)) {e : Expr}
    (hrows : e.Over fun n => n.isOffset = false) {row other : Json}
    (h : ∀ path ∈ e.vars, other.lookup path = row.lookup (renamed names path)) :
    (e.rename names).evaluate row = e.evaluate other ∧
      (e.rename names).vars = Ordered.elems (e.vars.map (renamed names)) := by
  constructor
  · unfold rename evaluate
    induction e using induction_children with
    | step e ih =>
      cases hleaf : e.isLeaf with
      | true =>
        cases e with
        | offset => cases ((over_iff _).mp hrows).1
        | var path type => exact (h path (mem_vars.mpr (.inl rfl))).symm
        | leaves path => exact congrArg Json.leaves (h path (mem_vars.mpr (.inl rfl))).symm
        | const | date | script | rows => rfl
        | _ => cases hleaf
      | false =>
        rw [mapLeaves_eq hleaf]
        refine evaluateWith_mapChildren hleaf fun c hc =>
          ih c hc (hrows.child hc) fun path hpath => ?_
        exact h path (mem_vars.mpr (.inr ⟨c, hc, hpath⟩))
  · refine Ordered.elems_congr fun path => ?_
    have hpath := mem_vars_mapPath (renamed names) e path
    rw [vars, Ordered.mem_elems] at hpath
    rw [mem_map]
    exact hpath

/-- A choice between a field and all values beneath another one. -/
def fieldOrLeaves : Expr :=
  when (binary .eq (field "a") (int 1)) (select [("n", field "b")]) (leaves "c")

/-- Two fields change places. -/
theorem evaluate_rename_swapped :
    (fieldOrLeaves.rename [("a", "b"), ("b", "a")]).evaluate
        (.obj [("a", .int 1), ("b", .str "t")]) =
      fieldOrLeaves.evaluate (.obj [("a", .str "t"), ("b", .int 1)]) := by
  have hvars : fieldOrLeaves.vars = ["a", "b", "c"] := by decide +kernel
  refine (evaluate_rename _ (by unfold Over; decide) ?_).1
  rw [hvars]
  exact forall_mem_cons.mpr ⟨rfl, forall_mem_cons.mpr ⟨rfl, forall_mem_singleton.mpr rfl⟩⟩

end Expr

end Snowbank
