import Snowbank.Proofs.Expr.Tree
import Snowbank.Proofs.Path

/-!
# How Deep an Expression Reads

The arrays that an expression reads from lie in one line with the scope, or it
cannot be read from there. Those around the scope are at hand, and of those
beneath it the deepest says which rows the expression needs.

The search compares the next array with the scope and with the deepest one so
far, and with no other. This is enough because all arrays seen before are
around the deepest one, and what is around one path is in line
(`inLine_of_isUnder`).

## Main definitions

* `InLine`: The scope and the arrays lead one to the next.
* `Deepest`: What the search among some arrays finds.

## Theorems

* `deepPath_resolved`: What is read decides the depth, and no order does.
-/

namespace Snowbank

open List

namespace Expr

theorem collect_eq {α : Type} (f : Expr → Option (List α)) (e : Expr) :
    e.collect f = (f e).getD (e.children.flatMap (collect f)) := by
  have hall : ∀ terms, collectAll f terms = terms.flatMap (collect f) := by
    intro terms
    induction terms with
    | nil => rfl
    | cons x xs ih => rw [collectAll, ih, flatMap_cons]
  cases e with
  | case clauses other =>
    have hclauses : collectClauses f clauses ++ collect f other =
        (case clauses other).children.flatMap (collect f) := by
      induction clauses with
      | nil => simp [collectClauses, children]
      | cons clause rest ih => simpa [collectClauses, children] using ih
    rw [collect, hclauses]
  | range x bounds =>
    have hbounds : collectBounds f bounds = (bounds.map Prod.snd).flatMap (collect f) := by
      induction bounds with
      | nil => rfl
      | cons bound rest ih => simp [collectBounds, ih]
    simp [collect, children, hbounds]
  | select fields =>
    have hfields : collectFields f fields = (fields.map Prod.snd).flatMap (collect f) := by
      induction fields with
      | nil => rfl
      | cons field rest ih => simp [collectFields, ih]
    simp [collect, children, hfields]
  | _ => simp [collect, children, hall]

end Expr

namespace Scope

variable {scope : Scope} {paths seen : List Path} {r : Except CompileError (Option Path)}
  {found : Option Path} {d home : Path} {s : Snowflake} {e e' : Expr}

/-- The path is the scope, or one with fewer keys that leads to it. -/
def IsAround (scope : Scope) (home : Path) : Prop :=
  home = scope.path ∨ scope.path.isUnder home ∧ home.isUnder scope.path = false

/-- The path is another one than the scope and leads on from it. -/
def IsBeneath (scope : Scope) (home : Path) : Prop :=
  home ≠ scope.path ∧ home.isUnder scope.path

/-- The scope and the arrays lead one to the next. -/
def InLine (scope : Scope) (paths : List Path) : Prop :=
  ∀ a ∈ scope.path :: paths, ∀ b ∈ scope.path :: paths, a.isUnder b ∨ b.isUnder a

theorem IsAround.isUnder (h : scope.IsAround home) : scope.path.isUnder home :=
  h.elim (fun heq => heq ▸ Path.isUnder_refl _) And.left

theorem IsBeneath.not_around (h : scope.IsBeneath home) : ¬scope.IsAround home := by
  rintro (heq | ⟨-, hnot⟩)
  · exact h.1 heq
  · exact absurd (h.2.symm.trans hnot) (by decide)

/-- All that is around one path is in line. -/
theorem inLine_of_isUnder (h : ∀ home ∈ scope.path :: paths, d.isUnder home) :
    scope.InLine paths := fun a ha b hb =>
  (le_total b.depth a.depth).imp (Path.isUnder_of_depth_le (h a ha) (h b hb))
    (Path.isUnder_of_depth_le (h b hb) (h a ha))

theorem inLine_of_around (h : ∀ home ∈ paths, scope.IsAround home) : scope.InLine paths :=
  inLine_of_isUnder (forall_mem_cons.2 ⟨Path.isUnder_refl _, fun x hx => (h x hx).isUnder⟩)

/-- What the search among some arrays finds. -/
inductive Deepest (scope : Scope) (paths : List Path) : Except CompileError (Option Path) → Prop
  | around (around : ∀ home ∈ paths, scope.IsAround home) : Deepest scope paths (.ok none)
  | beneath {d : Path} (mem : d ∈ paths) (beneath : scope.IsBeneath d)
      (deepest : ∀ home ∈ paths, d.isUnder home) : Deepest scope paths (.ok (some d))
  | apart {a b : Path} (ha : a ∈ scope.path :: paths) (hb : b ∈ scope.path :: paths)
      (h : ¬(a.isUnder b ∨ b.isUnder a)) : Deepest scope paths (.error (.crossBranch a b))

theorem Deepest.step (h : Deepest scope seen (.ok found)) (home : Path) (rest : List Path) :
    ∃ r, Deepest scope (seen ++ [home]) r ∧
      scope.deepestFrom found (home :: rest) = r.bind (scope.deepestFrom · rest) := by
  have hall : ∀ {P : Path → Prop}, (∀ x ∈ seen, P x) → P home → ∀ x ∈ seen ++ [home], P x :=
    fun hseen hhome => forall_mem_append.2 ⟨hseen, forall_mem_singleton.2 hhome⟩
  rw [deepestFrom.eq_def]
  dsimp only
  split_ifs with houter hunder
  · -- an array around the scope changes nothing
    have hhome : scope.IsAround home := by simpa [IsAround, hunder] using houter
    refine ⟨.ok found, ?_, rfl⟩
    cases h with
    | around around => exact .around (hall around hhome)
    | beneath mem beneath deepest =>
      exact .beneath (mem_append_left _ mem) beneath
        (hall deepest (Path.isUnder_trans beneath.2 hhome.isUnder))
  · -- an array that is not in line with the scope
    refine ⟨_, .apart (by simp) (by simp) ?_, rfl⟩
    rintro (hhome | hhome)
    · rw [hhome, Bool.not_true, Bool.or_false, beq_iff_eq] at houter
      exact hunder (houter ▸ hhome)
    · exact hunder hhome
  · -- one beneath the scope is compared with the deepest so far
    have hhome : scope.IsBeneath home := by simpa [IsBeneath] using houter
    cases h with
    | around around =>
      have hdeepest := hall (fun x hx => Path.isUnder_trans hhome.2 (around x hx).isUnder)
        (Path.isUnder_refl home)
      exact ⟨_, .beneath (by simp) hhome hdeepest, rfl⟩
    | @beneath d mem beneath deepest =>
      dsimp only [deeper]
      split_ifs with hdeeper hshallower
      · have hdeepest := hall (fun x hx => Path.isUnder_trans hdeeper (deepest x hx))
          (Path.isUnder_refl home)
        exact ⟨_, .beneath (by simp) hhome hdeepest, rfl⟩
      · exact ⟨_, .beneath (by simp [mem]) beneath (hall deepest hshallower), rfl⟩
      · exact ⟨_, .apart (by simp [mem]) (by simp) (not_or.2 ⟨hshallower, hdeeper⟩), rfl⟩

/-- The search goes on from what it has found so far. -/
theorem deepest_deepestFrom (h : Deepest scope seen (.ok found)) (rest : List Path) :
    Deepest scope (seen ++ rest) (scope.deepestFrom found rest) := by
  induction rest generalizing seen found with
  | nil => rwa [append_nil]
  | cons home rest ih =>
    obtain ⟨r, hr, heq⟩ := h.step home rest
    rw [heq, append_cons]
    cases r with
    | ok found => exact ih hr
    | error error =>
      cases hr with
      | apart ha hb hab =>
        have hsub := cons_subset_cons scope.path (subset_append_left (seen ++ [home]) rest)
        exact .apart (hsub ha) (hsub hb) hab

theorem Deepest.perm {paths' : List Path} (h : Deepest scope paths r) (hperm : paths.Perm paths') :
    Deepest scope paths' r := by
  cases h with
  | around around => exact .around fun x hx => around x (hperm.mem_iff.2 hx)
  | beneath mem beneath deepest =>
    exact .beneath (hperm.mem_iff.1 mem) beneath fun x hx => deepest x (hperm.mem_iff.2 hx)
  | apart ha hb hab =>
    exact .apart ((hperm.cons _).mem_iff.1 ha) ((hperm.cons _).mem_iff.1 hb) hab

/-- What is found tells how the arrays lie. -/
theorem Deepest.resolved (h : Deepest scope paths r) :
    (r = .ok none ↔ ∀ home ∈ paths, scope.IsAround home) ∧
    ((∃ d, r = .ok (some d)) ↔ scope.InLine paths ∧ ∃ home ∈ paths, scope.IsBeneath home) ∧
    ((∃ a b, r = .error (.crossBranch a b)) ↔ ¬scope.InLine paths) := by
  cases h with
  | around around =>
    have hline : scope.InLine paths := inLine_of_around around
    refine ⟨iff_of_true rfl around, iff_of_false (by simp) ?_, iff_of_false (by simp) ?_⟩
    · rintro ⟨-, home, hhome, hbeneath⟩
      exact hbeneath.not_around (around home hhome)
    · exact not_not_intro hline
  | beneath mem beneath deepest =>
    have hline : scope.InLine paths := inLine_of_isUnder (forall_mem_cons.2 ⟨beneath.2, deepest⟩)
    refine ⟨iff_of_false (by simp) ?_, iff_of_true ⟨_, rfl⟩ ?_, iff_of_false (by simp) ?_⟩
    · intro haround
      exact beneath.not_around (haround _ mem)
    · exact ⟨hline, _, mem, beneath⟩
    · exact not_not_intro hline
  | apart ha hb hab =>
    -- two of the arrays are in no line, so neither is the list
    have hline : ¬scope.InLine paths := fun h => hab (h _ ha _ hb)
    refine ⟨iff_of_false (by simp) ?_, iff_of_false (by simp) ?_, iff_of_true ⟨_, _, rfl⟩ hline⟩
    · intro haround
      exact hline (inLine_of_around haround)
    · intro hbeneath
      exact hline hbeneath.1

/-- The operands of nodes stand in another order. -/
inductive Reordered (s : Snowflake) : Expr → Expr → Prop
  | operands {e e' : Expr} (he : homeOf s e = none) (he' : homeOf s e' = none)
      (order : e.children.Perm e'.children) : Reordered s e e'
  | inside {e e' x x' : Expr} {before after : List Expr} (he : homeOf s e = none)
      (he' : homeOf s e' = none) (hx : e.children = before ++ x :: after)
      (hx' : e'.children = before ++ x' :: after) (h : Reordered s x x') : Reordered s e e'
  | trans {a b c : Expr} (hab : Reordered s a b) (hbc : Reordered s b c) : Reordered s a c

theorem Reordered.perm_homes (h : Reordered s e e') : (homes s e).Perm (homes s e') := by
  have homes_eq : ∀ {x}, homeOf s x = none → homes s x = x.children.flatMap (homes s) :=
    fun hx => (Expr.collect_eq _ _).trans (by rw [hx]; rfl)
  induction h with
  | operands he he' order =>
    rw [homes_eq he, homes_eq he']
    exact order.flatMap_right _
  | inside he he' hx hx' _ ih =>
    rw [homes_eq he, homes_eq he', hx, hx', flatMap_append, flatMap_append, flatMap_cons,
      flatMap_cons]
    exact (ih.append_right _).append_left _
  | trans _ _ ihab ihbc => exact ihab.trans ihbc

/-- What an expression reads from decides how deep it is, and no order of its operands does. -/
theorem deepPath_resolved (scope : Scope) (e : Expr) :
    (scope.deepPath e = .ok none ↔ ∀ home ∈ homes scope.snowflake e, scope.IsAround home) ∧
    ((∃ d, scope.deepPath e = .ok (some d)) ↔ scope.InLine (homes scope.snowflake e) ∧
      ∃ home ∈ homes scope.snowflake e, scope.IsBeneath home) ∧
    (∀ d, scope.deepPath e = .ok (some d) → d ∈ homes scope.snowflake e ∧ scope.IsBeneath d ∧
      ∀ home ∈ homes scope.snowflake e, d.isUnder home) ∧
    ((∃ a b, scope.deepPath e = .error (.crossBranch a b)) ↔
      ¬scope.InLine (homes scope.snowflake e)) ∧
    ∀ e', Reordered scope.snowflake e e' →
      (scope.deepPath e = .ok none ↔ scope.deepPath e' = .ok none) ∧
      ((∃ d, scope.deepPath e = .ok (some d)) ↔ ∃ d, scope.deepPath e' = .ok (some d)) ∧
      ((∃ a b, scope.deepPath e = .error (.crossBranch a b)) ↔
        ∃ a b, scope.deepPath e' = .error (.crossBranch a b)) := by
  have hsearch : ∀ x, Deepest scope (homes scope.snowflake x) (scope.deepPath x) := fun _ =>
    deepest_deepestFrom (.around (forall_mem_nil _)) _
  obtain ⟨hnone, hsome, herror⟩ := (hsearch e).resolved
  refine ⟨hnone, hsome, fun d hd => ?_, herror, fun e' horder => ?_⟩
  · have hfound := hsearch e
    rw [hd] at hfound
    cases hfound with
    | beneath mem beneath deepest => exact ⟨mem, beneath, deepest⟩
  · obtain ⟨hnone', hsome', herror'⟩ := ((hsearch e').perm horder.perm_homes.symm).resolved
    exact ⟨hnone.trans hnone'.symm, hsome.trans hsome'.symm, herror.trans herror'.symm⟩

end Scope

end Snowbank
