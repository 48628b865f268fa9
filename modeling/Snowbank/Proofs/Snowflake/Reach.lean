import Mathlib.Data.List.Nodup
import Mathlib.Logic.Relation
import Snowbank.Proofs.Snowflake.Planting

/-!
# The Steps of a Catalog

Whatever is asked of a catalog, a column, an array or documents to store, it
changes in steps of few kinds: rows are numbered, a column or an array that is
not there yet is added, and the length of an array is noted. What each of them
keeps is kept by everything.

## Main definitions

* `Step`: One change of a catalog.
* `Reaches`: Any number of changes.

## Theorems

* `Reaches.keeps`: What each step keeps is kept.
* `Laid.reaches_shred`: Storing documents is a number of steps.
-/

namespace Snowbank.Snowflake

open List Column

section

variable {s : Snowflake}

theorem slots_replaceColumn {c seen : Column} (hname : seen.name = c.name)
    (htype : seen.type = c.type)
    {columns : List Column} (hslot : ∀ d ∈ columns, d.name = c.name → d.type = c.type →
      d.slot = seen.slot) : (replaceColumn seen columns).map slot = columns.map slot := by
  induction columns with
  | nil => rfl
  | cons d rest ih =>
    rw [replaceColumn]
    split
    next hsame =>
      simp only [Bool.and_eq_true, beq_iff_eq] at hsame
      rw [map_cons, map_cons, hslot d mem_cons_self (hsame.1.trans hname) (hsame.2.trans htype)]
    · rw [map_cons, map_cons, ih fun e he => hslot e (.tail _ he)]

/-- The length of an array is noted in a column that stays where it is. -/
theorem Laid.sameLayout_observeLength (hs : s.Laid) (path : Path) (length : Nat) :
    SameLayout s (s.observeLength path length) := by
  unfold observeLength
  split
  · exact ⟨rfl, rfl, rfl⟩
  next c hfound =>
    split
    · refine ⟨rfl, rfl, slots_replaceColumn rfl rfl fun d hd hname htype => ?_⟩
      -- there is one column for each path and type
      have hsame : d.label = c.label := Prod.ext hname htype
      rw [inj_on_of_nodup_map hs.unique hd (of_find? hfound).1 hsame]
      rfl
    · exact ⟨rfl, rfl, rfl⟩

end

variable {s s' : Snowflake}

/-- One change of a catalog. -/
inductive Step : Snowflake → Snowflake → Prop
  | numbered (s : Snowflake) (nextUid : List (String × Int)) : Step s { s with nextUid }
  | column {s : Snowflake} {path : Path} {type : DataType} (canonical : path.Canonical)
      (stored : type.storage = type) (kept : type ≠ .nested)
      (outside : type.isOutside → path ∈ s.nested) (fresh : (path, type) ∉ s.labels) :
      Step s (s.push (s.newColumn path type))
  | array {s : Snowflake} {path : Path} (canonical : path.Canonical) (inside : path ≠ .root)
      (fresh : path ∉ s.nested) : Step s (s.withTable path)
  | length (s : Snowflake) (path : Path) (length : Nat) : Step s (s.observeLength path length)

/-- Any number of changes. -/
def Reaches : Snowflake → Snowflake → Prop := Relation.ReflTransGen Step

theorem Step.laid (h : Step s s') (hs : s.Laid) : s'.Laid := by
  cases h with
  | numbered nextUid => exact hs.of_sameLayout ⟨rfl, rfl, rfl⟩
  | column canonical stored _ outside fresh =>
    have hlaid := hs.ensureColumn canonical stored outside
    rwa [ensureColumn_of_new fresh] at hlaid
  | array canonical inside fresh => exact hs.withTable canonical inside fresh
  | length path length => exact hs.of_sameLayout (hs.sameLayout_observeLength path length)

theorem Reaches.keeps {P : Snowflake → Prop}
    (hstep : ∀ {s s'}, s.Laid → Step s s' → P s → P s') (h : s.Reaches s')
    (hs : s.Laid) (hP : P s) : s'.Laid ∧ P s' := by
  induction h with
  | refl => exact ⟨hs, hP⟩
  | tail _ step ih => exact ⟨step.laid ih.1, hstep ih.1 step ih.2⟩

section

variable {s : Snowflake}

variable {path : Path} {type : DataType} {s' : Snowflake} {changes : List SchemaChange}

theorem reaches_ensureColumn (canonical : path.Canonical)
    (stored : type.storage = type) (kept : type ≠ .nested)
    (outside : type.isOutside → path ∈ s.nested) : s.Reaches (s.ensureColumn path type).2.2 := by
  by_cases hlabel : (path, type) ∈ s.labels
  · unfold Snowflake.ensureColumn
    split
    · exact .refl
    next hnone => exact absurd hlabel (find?_eq_none_iff.1 hnone)
  · rw [ensureColumn_of_new hlabel]
    exact .single (.column canonical stored kept outside hlabel)

theorem Laid.reaches_nest (hs : s.Laid)
    (hpath : path.Canonical) (hnest : s.nest path = .ok (changes, s')) : s.Reaches s' := by
  rw [hs.nest_eq] at hnest
  split_ifs at hnest with hroot hmem
  · cases hnest
    exact .refl
  · cases hnest
    exact .single (.array hpath hroot hmem)

theorem Laid.reaches_addColumn {c : Column} (hs : s.Laid) (hpath : path.Canonical)
    (hadd : s.addColumn path type = .ok (c, changes, s')) : s.Reaches s' := by
  rcases addColumn_cases hadd with ⟨made, hnest⟩ | ⟨stored, hstored, hnested, hinside, heq⟩
  · exact hs.reaches_nest hpath hnest
  · have hreach := reaches_ensureColumn hpath hstored hnested hinside
    rwa [heq] at hreach

theorem Laid.reaches_shred (hs : s.Laid) (docs : List (String × Json)) :
    s.Reaches (s.shred docs).2 := by
  refine shred_keeps (P := s.Reaches) (fun hpath htype houtside h => ?_)
    (fun h => h.tail (.length _ _ _)) (fun h => h.tail (.numbered _ _))
    (fun hpath h hnest => h.trans ?_) docs .refl
  · exact h.trans (reaches_ensureColumn hpath (DataType.storage_storage _) htype houtside)
  · have hlaid := (h.keeps (P := fun _ => True) (fun _ _ h => h) hs trivial).1
    exact hlaid.reaches_nest hpath hnest

end

end Snowbank.Snowflake
