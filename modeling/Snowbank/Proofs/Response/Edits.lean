import Snowbank.Proofs.Ordered

/-!
# Writing at Several Places

A document is put together by writes at many places, in an order that has
nothing to do with the order of its fields. Writes at places of which none
lies in another can be made in any order, also when something is in the way of
one of them, since that is then in its way before and after the other.

## Main definitions

* `Apart`: None of two places lies in the other.
* `Edit`: A change of the value at a place.
* `run`: Make changes one after the other.

## Theorems

* `run_perm`: Changes at places apart can be made in any order.
-/

namespace Snowbank.Json

open List Option Ordered

variable {ks ls : List String}

/-- None of two places lies in the other. -/
def Apart (ks ls : List String) : Prop := ¬ ks <+: ls ∧ ¬ ls <+: ks

theorem Apart.symm (h : Apart ks ls) : Apart ls ks := ⟨h.2, h.1⟩

theorem Apart.tail {k : String} (h : Apart (k :: ks) (k :: ls)) : Apart ks ls :=
  ⟨fun hp => h.1 (cons_prefix_cons.2 ⟨rfl, hp⟩), fun hp => h.2 (cons_prefix_cons.2 ⟨rfl, hp⟩)⟩

theorem Apart.ne_nil (h : Apart ks ls) : ls ≠ [] := fun heq => h.2 (heq ▸ nil_prefix)

theorem Apart.drop {front : List String} (h : Apart ks ls) (hk : front <+: ks)
    (hl : front <+: ls) : Apart (ks.drop front.length) (ls.drop front.length) := by
  obtain ⟨as, rfl⟩ := hk
  obtain ⟨bs, rfl⟩ := hl
  rw [drop_left, drop_left]
  exact ⟨fun hp => h.1 ((prefix_append_right_inj _).2 hp),
    fun hp => h.2 ((prefix_append_right_inj _).2 hp)⟩

section

variable {f g : Json → Json}

variable {key : String} {ks ls : List String} {v w : Json}

/-- The value of a field, null where there is none. -/
def field (key : String) (fields : Fields) : Json := (Ordered.get? key fields).getD .null

theorem field_insert_self (key : String) (value : Json) (fields : Fields) :
    field key (insert key value fields) = value := by
  rw [field, Ordered.get?_insert_self, getD_some]

theorem field_insert_of_ne {other : String} (h : key ≠ other) (value : Json) (fields : Fields) :
    field key (insert other value fields) = field key fields := by
  rw [field, Ordered.get?_insert_of_ne h, field]

theorem field_eq_null {fields : Fields}
    (h : ∀ entry ∈ fields, compare key entry.1 = .gt) : field key fields = .null := by
  induction fields with
  | nil => rfl
  | cons entry rest ih =>
    rw [field, Ordered.get?, h entry mem_cons_self]
    exact ih fun e he => h e (.tail _ he)

theorem modifyAt?_obj (f : Json → Json) (k : String) (ks : List String) (fields : Fields) :
    modifyAt? f (k :: ks) (.obj fields) =
      (modifyAt? f ks (field k fields)).map fun w => .obj (insert k w fields) := rfl

theorem modifyAt?_bind_self (k : String) (ks ls : List String) (fields : Fields) :
    (modifyAt? f (k :: ks) (.obj fields)).bind (modifyAt? g (k :: ls)) =
      ((modifyAt? f ks (field k fields)).bind (modifyAt? g ls)).map fun w =>
        .obj (insert k w fields) := by
  rw [modifyAt?_obj]
  cases modifyAt? f ks (field k fields) with
  | none => rfl
  | some w =>
    rw [map_some, bind_some, bind_some, modifyAt?_obj, field_insert_self]
    simp [insert_insert_self]

theorem modifyAt?_bind_of_ne {k l : String} (h : k ≠ l) (ks ls : List String) (fields : Fields) :
    (modifyAt? f (k :: ks) (.obj fields)).bind (modifyAt? g (l :: ls)) =
      (modifyAt? f ks (field k fields)).bind fun w => (modifyAt? g ls (field l fields)).map fun u =>
          .obj (insert l u (insert k w fields)) := by
  rw [modifyAt?_obj]
  cases modifyAt? f ks (field k fields) with
  | none => rfl
  | some w => rw [map_some, bind_some, bind_some, modifyAt?_obj, field_insert_of_ne h.symm]

theorem modifyAt?_same (f g : Json → Json) (ks : List String) (v : Json) :
    (modifyAt? f ks v).bind (modifyAt? g ks) = modifyAt? (g ∘ f) ks v := by
  induction ks generalizing v with
  | nil => rfl
  | cons k ks ih =>
    have hobj : ∀ fields, (modifyAt? f (k :: ks) (.obj fields)).bind (modifyAt? g (k :: ks)) =
        modifyAt? (g ∘ f) (k :: ks) (.obj fields) := by
      intro fields
      rw [modifyAt?_bind_self, ih, modifyAt?_obj]
    cases v with
    -- nothing is changed as an object without fields is
    | null => exact hobj []
    | obj fields => exact hobj fields
    | _ => rfl

theorem modifyAt?_comm (h : Apart ks ls) (v : Json) :
    (modifyAt? f ks v).bind (modifyAt? g ls) = (modifyAt? g ls v).bind (modifyAt? f ks) := by
  induction ks generalizing ls v with
  | nil => exact absurd nil_prefix h.1
  | cons k ks ih =>
    cases ls with
    | nil => exact absurd nil_prefix h.2
    | cons l ls =>
      have hobj : ∀ fields, (modifyAt? f (k :: ks) (.obj fields)).bind (modifyAt? g (l :: ls)) =
            (modifyAt? g (l :: ls) (.obj fields)).bind (modifyAt? f (k :: ks)) := by
        intro fields
        by_cases hkl : k = l
        · -- the places part further down, in the value at their common key
          subst hkl
          rw [modifyAt?_bind_self, modifyAt?_bind_self, ih h.tail]
        · rw [modifyAt?_bind_of_ne hkl, modifyAt?_bind_of_ne (Ne.symm hkl)]
          cases modifyAt? f ks (field k fields) with
          | none => cases modifyAt? g ls (field l fields) <;> rfl
          | some w =>
            cases modifyAt? g ls (field l fields) with
            | none => rfl
            | some u => exact congrArg (some ∘ Json.obj) (insert_comm (Ne.symm hkl) u w fields)
      cases v with
      | null => exact hobj []
      | obj fields => exact hobj fields
      | _ => rfl

theorem isNull_modifyAt? (hks : ks ≠ []) (h : modifyAt? f ks v = some w) : w.isNull = false := by
  cases ks with
  | nil => exact absurd rfl hks
  | cons k ks =>
    cases v with
    | null | obj fields =>
      obtain ⟨u, _, rfl⟩ := map_eq_some_iff.1 h
      rfl
    | _ => cases h

theorem isSome_modifyAt?_null (f : Json → Json) (ks : List String) :
    (modifyAt? f ks .null).isSome := by
  induction ks with
  | nil => rfl
  | cons k ks ih => rw [modifyAt?, isSome_map, ih]

/-- What is in the way of a change is not touched by a change at a place apart. -/
theorem isSome_modifyAt?_of_apart (h : Apart ks ls)
    (hw : modifyAt? f ls v = some w) : (modifyAt? g ks w).isSome = (modifyAt? g ks v).isSome := by
  induction ks generalizing ls v w with
  | nil => exact absurd nil_prefix h.1
  | cons k ks ih =>
    cases ls with
    | nil => exact absurd nil_prefix h.2
    | cons l ls =>
      have hobj : ∀ fields, modifyAt? f (l :: ls) (.obj fields) = some w →
          (modifyAt? g (k :: ks) w).isSome = (modifyAt? g (k :: ks) (.obj fields)).isSome := by
        intro fields hfields
        rw [modifyAt?_obj] at hfields
        obtain ⟨u, hu, rfl⟩ := map_eq_some_iff.1 hfields
        rw [modifyAt?_obj, modifyAt?_obj, isSome_map, isSome_map]
        by_cases hkl : k = l
        · subst hkl
          rw [field_insert_self]
          exact ih h.tail hu
        · rw [field_insert_of_ne hkl]
      cases v with
      | null => exact hobj [] hw
      | obj fields => exact hobj fields hw
      | _ => cases hw

end

/-- A change of the value at a place. -/
structure Edit where
  keys : List String
  change : Json → Json

/-- Make one change. -/
def Edit.apply (e : Edit) (v : Json) : Option Json := modifyAt? e.change e.keys v

/-- The same change, seen from further up. -/
def Edit.under (key : String) (e : Edit) : Edit := ⟨key :: e.keys, e.change⟩

/-- Make changes one after the other. -/
def run (edits : List Edit) (v : Json) : Option Json := edits.foldlM (fun v e => e.apply v) v

section

variable {edits : List Edit} {v w : Json} {items : List Json}

theorem run_cons (e : Edit) (edits : List Edit) (v : Json) :
    run (e :: edits) v = (e.apply v).bind (run edits) := rfl

theorem run_append (edits more : List Edit) (v : Json) :
    run (edits ++ more) v = (run edits v).bind (run more) := by
  unfold run
  rw [foldlM_append]
  rfl

theorem run_perm {others : List Edit} (h : edits.Perm others)
    (hapart : edits.Pairwise fun d e => Apart d.keys e.keys) (v : Json) :
    run edits v = run others v := by
  induction h generalizing v with
  | nil => rfl
  | cons e _ ih => rw [run_cons, run_cons, funext (ih (pairwise_cons.1 hapart).2)]
  | swap d e rest =>
    have hde := (pairwise_cons.1 hapart).1 d mem_cons_self
    have hswap : (e.apply v).bind d.apply = (d.apply v).bind e.apply := modifyAt?_comm hde v
    change (e.apply v).bind (fun u => (d.apply u).bind (run rest)) =
      (d.apply v).bind fun u => (e.apply u).bind (run rest)
    rw [← bind_assoc, hswap, bind_assoc]
  | trans hfirst _ ih ih' =>
    rw [ih hapart]
    exact ih' (hfirst.pairwise hapart Apart.symm) v

/-- Changes at places of which none lies in another are all made where there was nothing. -/
theorem isSome_run (hapart : edits.Pairwise fun d e => Apart d.keys e.keys)
    (h : ∀ e ∈ edits, (e.apply v).isSome) : (run edits v).isSome := by
  induction edits generalizing v with
  | nil => rfl
  | cons e rest ih =>
    obtain ⟨hfirst, hrest⟩ := pairwise_cons.1 hapart
    obtain ⟨w, hw⟩ := isSome_iff_exists.1 (h e mem_cons_self)
    rw [run_cons, hw, bind_some]
    refine ih hrest fun d hd => ?_
    rw [Edit.apply, isSome_modifyAt?_of_apart (hfirst d hd).symm hw]
    exact h d (.tail _ hd)

theorem run_under (key : String) (h : edits ≠ []) (fields : Fields) :
    run (edits.map (Edit.under key)) (.obj fields) =
      (run edits (field key fields)).map fun w => .obj (insert key w fields) := by
  induction edits generalizing fields with
  | nil => exact absurd rfl h
  | cons e rest ih =>
    rw [map_cons, run_cons, run_cons]
    change (modifyAt? e.change (key :: e.keys) (.obj fields)).bind _ = _
    rw [modifyAt?_obj, Edit.apply]
    cases modifyAt? e.change e.keys (field key fields) with
    | none => rfl
    | some w =>
      rw [map_some, bind_some, bind_some]
      by_cases hrest : rest = []
      · rw [hrest]
        rfl
      · rw [ih hrest, field_insert_self]
        simp [insert_insert_self]

theorem run_null (h : edits ≠ []) (hkeys : ∀ e ∈ edits, e.keys ≠ []) :
    run edits .null = run edits (.obj []) := by
  cases edits with
  | nil => exact absurd rfl h
  | cons e rest =>
    obtain ⟨keys, change⟩ := e
    cases keys with
    | nil => exact absurd rfl (hkeys _ mem_cons_self)
    | cons k ks => rfl

/-- Put items at the end of an array, in turn. -/
def pushAll (items : List Json) (v : Json) : Json := items.foldl (fun v item => pushed item v) v

theorem pushAll_arr (items more : List Json) :
    pushAll more (.arr items) = .arr (items ++ more) := by
  induction more generalizing items with
  | nil => rw [append_nil]; rfl
  | cons item rest ih =>
    rw [pushAll, foldl_cons]
    exact (ih (items ++ [item])).trans (by rw [append_assoc]; rfl)

theorem pushAll_null (h : items ≠ []) : pushAll items .null = .arr items := by
  cases items with
  | nil => exact absurd rfl h
  | cons item rest => exact pushAll_arr [item] rest

/-- Items that are put into an array in turn are put there at once. -/
theorem run_pushed (keys : List String) (h : items ≠ []) (v : Json) :
    run (items.map fun item => ⟨keys, pushed item⟩) v = Edit.apply ⟨keys, pushAll items⟩ v := by
  induction items generalizing v with
  | nil => exact absurd rfl h
  | cons item rest ih =>
    rw [map_cons, run_cons]
    by_cases hrest : rest = []
    · rw [hrest]
      exact bind_fun_some _
    · rw [funext (ih hrest)]
      exact modifyAt?_same _ _ keys v

theorem isNull_run (hkeys : ∀ e ∈ edits, e.keys ≠ [])
    (hv : v.isNull = false) (h : run edits v = some w) : w.isNull = false := by
  induction edits generalizing v with
  | nil => exact some.inj h ▸ hv
  | cons e rest ih =>
    rw [run_cons] at h
    obtain ⟨u, hu, hrest⟩ := bind_eq_some_iff.1 h
    exact ih (fun d hd => hkeys d (.tail _ hd)) (isNull_modifyAt? (hkeys e mem_cons_self) hu) hrest

/-- A value that cannot be put at a place is left out, so values that can all be put there are all
    there. At the root, a value may only be put where there was nothing. -/
theorem foldl_setPath {writes : List (Path × Json)}
    (hroot : ∀ x ∈ writes, x.1.keys ≠ [] ∨ v = .null)
    (hapart : writes.Pairwise fun x y => Apart x.1.keys y.1.keys)
    (hrun : run (writes.map fun x => ⟨x.1.keys, fun _ => x.2⟩) v = some w) :
    writes.foldl (fun out x => out.setPath x.1 x.2) v = w := by
  induction writes generalizing v with
  | nil => exact some.inj hrun
  | cons x rest ih =>
    obtain ⟨hfirst, hrest⟩ := pairwise_cons.1 hapart
    rw [map_cons, run_cons] at hrun
    obtain ⟨u, hu, hmore⟩ := bind_eq_some_iff.1 hrun
    have hset : v.setPath x.1 x.2 = u := by
      unfold setPath
      rw [Edit.apply] at hu
      split
      next hnil =>
        rw [hnil] at hu
        rcases hroot x mem_cons_self with hne | rfl
        · exact absurd hnil hne
        · exact some.inj hu
      · rw [hu, getD_some]
    rw [foldl_cons, hset]
    exact ih (fun y hy => .inl (hfirst y hy).ne_nil) hrest hmore

theorem foldl_appendAt {items : List (Path × Json)} (hv : v.isNull = false)
    (hkeys : ∀ x ∈ items, x.1.keys ≠ [])
    (hrun : run (items.map fun x => ⟨x.1.keys, pushed x.2⟩) v = some w) :
    items.foldl (fun out x => out.appendAt x.1 x.2) v = w := by
  induction items generalizing v with
  | nil => exact some.inj hrun
  | cons x rest ih =>
    rw [map_cons, run_cons] at hrun
    obtain ⟨u, hu, hmore⟩ := bind_eq_some_iff.1 hrun
    have happend : v.appendAt x.1 x.2 = u := by
      unfold appendAt
      rw [Edit.apply] at hu
      dsimp only
      rw [if_neg (by rw [hv]; exact Bool.false_ne_true), hu, getD_some]
    rw [foldl_cons, happend]
    exact ih (isNull_modifyAt? (hkeys x mem_cons_self) hu) (fun y hy => hkeys y (.tail _ hy)) hmore

end

end Snowbank.Json
