import Snowbank.Proofs.Snowflake.Growth

/-!
# Where Columns Are

The place of a column follows from its path, its type and the arrays that the
catalog has now: it lies in the table of the deepest array around it, under
the path as seen from there. An array that appears later changes the places
of everything beneath its path, at any depth, and of nothing else. So making
an array has to put exactly those columns elsewhere, and the values to move
are those of the parent table.

What a catalog keeps is split, since while an array is being made it has no
marker and no count yet.

## Main definitions

* `Settled`: Every column is where the arrays say.
* `Laid`: In addition every array has its marker and its count.
* `ask`: The catalog after a request.

## Theorems

* `columns_stay_placed`: Columns are where they belong after any requests.
-/

namespace Snowbank

open List Ordered Path

def Column.label (c : Column) : Path × DataType := (c.name, c.type)

/-- What a column says of where values are. -/
def Column.slot (c : Column) : Path × DataType × String × List Path × String :=
  (c.name, c.type, c.table, c.nestedPath, c.physical)

namespace Snowflake

/-- What the columns of a catalog are for. -/
def labels (s : Snowflake) : List (Path × DataType) := s.columns.map Column.label

/-- A column is where the arrays of the catalog say. -/
structure Placed (s : Snowflake) (c : Column) : Prop where
  home : s.IsHome c.name c.type c.home
  deepestFirst : c.nestedPath.Pairwise fun a b => b.depth < a.depth
  arrays : ∀ array, array ∈ c.nestedPath ↔
    (array = .root ∨ array ∈ s.nested) ∧ c.home.isUnder array
  table : c.table = s.tableName c.home
  physical : c.physical =
    if c.type = .nested then s.tableName c.name else (c.name.relativeTo c.home).typed c.type

/-- Every column is where it belongs, and every array has a marker and a count. -/
structure WellPlaced (s : Snowflake) : Prop where
  unique : s.labels.Nodup
  placed : ∀ c ∈ s.columns, s.Placed c
  marker : ∀ path, path ∈ s.nested ↔ ∃ c ∈ s.columns, c.name = path ∧ c.type = .nested
  counter : ∀ path, path ∈ s.nested ↔ ∃ c ∈ s.columns, c.name = path ∧ c.type = .presence
  distinct : ((s.columns.filter Column.isPhysical).map fun c => (c.table, c.physical)).Nodup

/-- A column stands where `place` puts it. -/
structure Stands (s : Snowflake) (c : Column) : Prop where
  table : c.table = s.tableName (s.homeOf c.name c.type)
  nestedPath : c.nestedPath = s.nestedPathList (s.homeOf c.name c.type)
  physical : c.physical = s.physicalName c.name c.type (s.homeOf c.name c.type)

/-- Columns are for different things, and all stand where they belong. -/
structure Settled (s : Snowflake) : Prop extends ArraysOrdered s where
  unique : s.labels.Nodup
  canonical_name : ∀ c ∈ s.columns, c.name.Canonical
  stored : s.KeepsStored
  below_root : ∀ c ∈ s.columns, c.type.isOutside → c.name ≠ .root
  stands : ∀ c ∈ s.columns, s.Stands c

/-- A settled catalog in which every array has a marker and a count. -/
structure Laid (s : Snowflake) : Prop extends Settled s where
  marked : ∀ path, path ∈ s.nested ↔ (path, .nested) ∈ s.labels
  counted : ∀ path, path ∈ s.nested ↔ (path, .presence) ∈ s.labels

section

variable {s : Snowflake}

variable {path : Path} {type : DataType} {c : Column}

theorem mem_labels : (path, type) ∈ s.labels ↔ ∃ c ∈ s.columns, c.name = path ∧ c.type = type := by
  unfold labels
  rw [mem_map]
  exact exists_congr fun c => and_congr_right fun _ => Prod.mk.injEq .. ▸ Iff.rfl

theorem find?_eq_none_iff : s.find? path type = none ↔ (path, type) ∉ s.labels := by
  unfold find?
  rw [find?_eq_none, mem_labels]
  simp

theorem of_find? (h : s.find? path type = some c) :
    c ∈ s.columns ∧ c.name = path ∧ c.type = type := by
  have hmatch := find?_some h
  simp only [Bool.and_eq_true, beq_iff_eq] at hmatch
  exact ⟨mem_of_find?_eq_some h, hmatch⟩

theorem labels_push (c : Column) : (s.push c).labels = s.labels ++ [c.label] := map_append

theorem Settled.isHome (hs : s.Settled) (hc : c ∈ s.columns) :
    s.IsHome c.name c.type (s.homeOf c.name c.type) :=
  isHome_homeOf hs.toArraysOrdered (hs.below_root c hc)

theorem Settled.home_eq (hs : s.Settled) (hc : c ∈ s.columns) :
    c.home = s.homeOf c.name c.type := by
  rw [Column.home, (hs.stands c hc).nestedPath]
  exact head_nestedPathList hs.toArraysOrdered (hs.isHome hc).known

theorem physicalName_eq (s : Snowflake) (path : Path) (type : DataType) (home : Path) :
    s.physicalName path type home =
      if type = .nested then s.tableName path else (path.relativeTo home).typed type := by
  cases type <;> rfl

theorem Settled.placed (hs : s.Settled) (hc : c ∈ s.columns) : s.Placed c where
  home := hs.home_eq hc ▸ hs.isHome hc
  deepestFirst := (hs.stands c hc).nestedPath ▸ pairwise_nestedPathList hs.toArraysOrdered _
  arrays := by
    intro array
    rw [(hs.stands c hc).nestedPath, hs.home_eq hc]
    exact mem_nestedPathList
  table := hs.home_eq hc ▸ (hs.stands c hc).table
  physical := by
    rw [(hs.stands c hc).physical, hs.home_eq hc]
    exact physicalName_eq s _ _ _

theorem Settled.label_eq (hs : s.Settled) {d : Column} (hc : c ∈ s.columns)
    (hd : d ∈ s.columns) (hpc : c.isPhysical) (hpd : d.isPhysical)
    (htable : c.table = d.table) (hphysical : c.physical = d.physical) : c.label = d.label := by
  have hplaced := hs.placed hc
  have hother := hs.placed hd
  have hhome : c.home = d.home := by
    rw [hplaced.table, hother.table] at htable
    exact tableName_inj htable
  have hmarker : ∀ {e : Column}, e.isPhysical → e.type ≠ .nested := fun h =>
    bne_iff_ne.1 h
  rw [hplaced.physical, hother.physical, if_neg (hmarker hpc), if_neg (hmarker hpd), ← hhome]
    at hphysical
  have hunder : d.name.isUnder c.home := hhome ▸ hother.home.under
  rcases typed_relativeTo_inj (hs.canonical_name c hc) (hs.canonical_name d hd)
    hplaced.home.under hunder hphysical with ⟨hname, htype⟩
  rw [hs.stored c hc, hs.stored d hd] at htype
  rw [Column.label, Column.label, hname, htype]

theorem Laid.wellPlaced (hs : s.Laid) : s.WellPlaced where
  unique := hs.unique
  placed := fun _ hc => hs.placed hc
  marker := fun path => (hs.marked path).trans mem_labels
  counter := fun path => (hs.counted path).trans mem_labels
  distinct := by
    have hlabels : s.columns.Pairwise fun c d => c.label ≠ d.label := pairwise_map.1 hs.unique
    refine pairwise_map.2 (hlabels.filter _ |>.imp_of_mem ?_)
    intro c d hc hd hne heq
    obtain ⟨hc, hpc⟩ := mem_filter.1 hc
    obtain ⟨hd, hpd⟩ := mem_filter.1 hd
    rw [Prod.mk.injEq] at heq
    exact hne (hs.label_eq hc hd hpc hpd heq.1 heq.2)

end

section

variable {s : Snowflake}

variable {path : Path} {type : DataType}

theorem stands_place (hs : s.ArraysOrdered) {c : Column}
    (hroot : c.type.isOutside → c.name ≠ .root) : s.Stands (s.place c) where
  table := rfl
  nestedPath := rfl
  physical := by
    change s.physicalName c.name c.type _ = _
    rw [head_nestedPathList hs (isHome_homeOf hs hroot).known]
    rfl

theorem Settled.push (hs : s.Settled) (hpath : path.Canonical)
    (htype : type.storage = type) (hroot : type.isOutside → path ≠ Path.root)
    (hnew : (path, type) ∉ s.labels) : (s.push (s.newColumn path type)).Settled where
  increasing := hs.increasing
  canonical := hs.canonical
  not_root := hs.not_root
  unique := by
    rw [labels_push]
    refine nodup_append.2 ⟨hs.unique, pairwise_singleton _ _, ?_⟩
    intro label hlabel other hother heq
    rw [heq, mem_singleton.1 hother] at hlabel
    exact hnew hlabel
  canonical_name := by
    intro c hc
    rcases mem_append.1 hc with hc | hc
    · exact hs.canonical_name c hc
    · rw [mem_singleton.1 hc]
      exact hpath
  stored := keepsStored_push hs.stored htype
  below_root := by
    intro c hc
    rcases mem_append.1 hc with hc | hc
    · exact hs.below_root c hc
    · rw [mem_singleton.1 hc]
      exact hroot
  stands := by
    intro c hc
    rcases mem_append.1 hc with hc | hc
    · exact ⟨(hs.stands c hc).table, (hs.stands c hc).nestedPath, (hs.stands c hc).physical⟩
    · rw [mem_singleton.1 hc]
      have hplace := stands_place hs.toArraysOrdered (c := s.newColumn path type) hroot
      exact ⟨hplace.table, hplace.nestedPath, hplace.physical⟩

theorem ensureColumn_of_new (hnew : (path, type) ∉ s.labels) :
    s.ensureColumn path type = (s.newColumn path type,
      [.add (s.newColumn path type).table (s.newColumn path type).physical type],
      s.push (s.newColumn path type)) := by
  rw [ensureColumn, find?_eq_none_iff.2 hnew]

/-- Asking for a column of values keeps the catalog as it should be. -/
theorem Laid.ensureColumn (hs : s.Laid) (hpath : path.Canonical)
    (htype : type.storage = type) (houtside : type.isOutside → path ∈ s.nested) :
    (s.ensureColumn path type).2.2.Laid := by
  by_cases hlabel : (path, type) ∈ s.labels
  · unfold Snowflake.ensureColumn
    split
    · exact hs
    next hnone => exact absurd hlabel (find?_eq_none_iff.1 hnone)
  · -- a column that is made is not for the count or the marker of an array
    have hinside : type.isOutside = false := by
      cases type with
      | presence => exact absurd ((hs.counted path).1 (houtside rfl)) hlabel
      | nested => exact absurd ((hs.marked path).1 (houtside rfl)) hlabel
      | _ => rfl
    have hother : ∀ {t : DataType} (p : Path), t.isOutside →
        ((p, t) ∈ (s.push (s.newColumn path type)).labels ↔ (p, t) ∈ s.labels) := by
      intro t p ht
      rw [labels_push, mem_append, mem_singleton]
      refine or_iff_left fun heq => ?_
      have htt : t = type := congrArg Prod.snd heq
      rw [htt, hinside] at ht
      cases ht
    rw [ensureColumn_of_new hlabel]
    refine ⟨hs.toSettled.push hpath htype (fun h => ?_) hlabel, fun p => ?_, fun p => ?_⟩
    · rw [hinside] at h
      cases h
    · exact (hs.marked p).trans (hother p rfl).symm
    · exact (hs.counted p).trans (hother p rfl).symm

end

section Arrays

variable {s : Snowflake} {path : Path}

variable {array inner : Path}

/-- The catalog with one more array, before its columns are moved. -/
def withArray (s : Snowflake) (path : Path) : Snowflake := { s with
    nested := insertElem path s.nested
    nextUid := insert (s.tableName path)
      ((Ordered.get? (s.tableName (s.nestedPathOf path)) s.nextUid).getD 1) s.nextUid }

/-- The same, with the columns beneath the array where they belong. -/
def relocated (s : Snowflake) (path : Path) : Snowflake × List ColumnMove :=
  (s.withArray path).relocateAll path (s.tableName (s.nestedPathOf path)) (s.tableName path)

theorem mem_nested_withArray :
    array ∈ (s.withArray path).nested ↔ array = path ∨ array ∈ s.nested :=
  mem_insertElem

theorem ArraysOrdered.withArray (hs : s.ArraysOrdered) (hpath : path.Canonical)
    (hroot : path ≠ .root) : (s.withArray path).ArraysOrdered where
  increasing := increasing_insertElem hs.increasing
  canonical := by
    intro n hn
    rcases mem_nested_withArray.1 hn with rfl | hn
    · exact hpath
    · exact hs.canonical n hn
  not_root := by
    intro hmem
    rcases mem_nested_withArray.1 hmem with heq | hmem
    · exact hroot heq.symm
    · exact hs.not_root hmem

/-- A path that does not lie beneath a new array lies in the same arrays. -/
theorem nestedPathList_withArray (h : inner.isUnder path = false) :
    (s.withArray path).nestedPathList inner = s.nestedPathList inner := by
  unfold nestedPathList
  rw [show (s.withArray path).nested = insertElem path s.nested from rfl, filter_insertElem h]

theorem homeOf_withArray (h : inner.isUnder path = false) (type : DataType) :
    (s.withArray path).homeOf inner type = s.homeOf inner type := by
  cases type <;>
    simp [homeOf, nestedPathOf, parentNestedPath, nestedPathList_withArray h]

/-- A column that does not lie beneath a new array stands where it did. -/
theorem Settled.stands_withArray (hs : s.Settled) {c : Column} (hc : c ∈ s.columns)
    (h : c.name.isUnder path = false) : (s.withArray path).Stands c := by
  have hhome := homeOf_withArray (s := s) h c.type
  have hout : (s.homeOf c.name c.type).isUnder path = false := by
    refine Bool.eq_false_iff.2 fun hin => ?_
    have hunder := isUnder_trans (hs.isHome hc).under hin
    rw [h] at hunder
    cases hunder
  refine ⟨?_, ?_, ?_⟩
  · rw [hhome]
    exact (hs.stands c hc).table
  · rw [hhome, nestedPathList_withArray hout]
    exact (hs.stands c hc).nestedPath
  · rw [hhome, (hs.stands c hc).physical, physicalName_eq, physicalName_eq]
    rfl

theorem relocate_fst (s : Snowflake) (parent child : String) (c : Column) :
    (s.relocate parent child c).1 = s.place c := by
  unfold relocate
  dsimp only
  split <;> rfl

theorem columns_relocated (s : Snowflake) (path : Path) : (s.relocated path).1.columns =
      s.columns.map fun c => if c.name.isUnder path then (s.withArray path).place c else c := by
  refine map_congr_left fun c _ => ?_
  split
  · exact relocate_fst _ _ _ _
  · rfl

theorem labels_relocated (s : Snowflake) (path : Path) :
    (s.relocated path).1.labels = s.labels := by
  unfold labels
  rw [columns_relocated, map_map]
  refine map_congr_left fun c _ => ?_
  rw [Function.comp_apply]
  split <;> rfl

/-- Moving the columns beneath a new array settles the catalog again. -/
theorem Settled.relocated (hs : s.Settled) (hpath : path.Canonical) (hroot : path ≠ Path.root) :
    (s.relocated path).1.Settled := by
  have harrays := hs.toArraysOrdered.withArray hpath hroot
  have hcolumn : ∀ {P : Column → Prop}, (∀ c ∈ s.columns,
      (c.name.isUnder path → P ((s.withArray path).place c)) ∧
      (c.name.isUnder path = false → P c)) → ∀ c ∈ (s.relocated path).1.columns, P c := by
    intro P h c hc
    rw [columns_relocated] at hc
    obtain ⟨d, hd, rfl⟩ := mem_map.1 hc
    split
    next hunder => exact (h d hd).1 hunder
    next hunder => exact (h d hd).2 (Bool.eq_false_iff.2 hunder)
  refine ⟨⟨harrays.increasing, harrays.canonical, harrays.not_root⟩, ?_, ?_, ?_, ?_, ?_⟩
  · rw [labels_relocated]
    exact hs.unique
  · exact hcolumn fun c hc => ⟨fun _ => hs.canonical_name c hc, fun _ => hs.canonical_name c hc⟩
  · exact hcolumn fun c hc => ⟨fun _ => hs.stored c hc, fun _ => hs.stored c hc⟩
  · exact hcolumn (P := fun c => c.type.isOutside → c.name ≠ .root)
      fun c hc => ⟨fun _ => hs.below_root c hc, fun _ => hs.below_root c hc⟩
  · refine hcolumn fun c hc => ⟨fun _ => ?_, fun hunder => ?_⟩
    · have hplace := stands_place harrays (hs.below_root c hc)
      exact ⟨hplace.table, hplace.nestedPath, hplace.physical⟩
    · have hstands := hs.stands_withArray hc hunder
      exact ⟨hstands.table, hstands.nestedPath, hstands.physical⟩

/-- The same, with the marker of the array. -/
def marked (s : Snowflake) (path : Path) : Snowflake :=
  (s.relocated path).1.push ((s.relocated path).1.newColumn path .nested)

/-- The count of a new array. -/
def newCounter (s : Snowflake) (path : Path) : Column := (s.marked path).newColumn path .presence

/-- The catalog with one more array, its marker and its count. -/
def withTable (s : Snowflake) (path : Path) : Snowflake := (s.marked path).push (s.newCounter path)

theorem labels_marked (s : Snowflake) (path : Path) :
    (s.marked path).labels = s.labels ++ [(path, .nested)] := by
  rw [marked, labels_push, labels_relocated]
  rfl

theorem labels_withTable (s : Snowflake) (path : Path) :
    (s.withTable path).labels = s.labels ++ [(path, .nested), (path, .presence)] := by
  rw [withTable, labels_push, labels_marked, append_assoc]
  rfl

theorem mem_nested_withTable :
    array ∈ (s.withTable path).nested ↔ array = path ∨ array ∈ s.nested :=
  mem_nested_withArray

theorem Laid.not_mem_labels (hs : s.Laid) (hnew : path ∉ s.nested) :
    (path, .nested) ∉ s.labels ∧ (path, .presence) ∉ s.labels :=
  ⟨fun h => hnew ((hs.marked path).2 h), fun h => hnew ((hs.counted path).2 h)⟩

theorem not_mem_labels_marked (h : (path, .presence) ∉ s.labels) :
    (path, .presence) ∉ (s.marked path).labels := by
  rw [labels_marked, mem_append, mem_singleton]
  exact fun hmem => hmem.elim h (by simp)

/-- Making an array keeps the catalog as it should be. -/
theorem Laid.withTable (hs : s.Laid) (hpath : path.Canonical) (hroot : path ≠ Path.root)
    (hnew : path ∉ s.nested) : (s.withTable path).Laid := by
  obtain ⟨hmarker, hcounter⟩ := hs.not_mem_labels hnew
  have hmoved := hs.toSettled.relocated hpath hroot
  have hmarked := hmoved.push hpath (rfl : DataType.nested.storage = .nested) (fun _ => hroot)
    (labels_relocated s path ▸ hmarker)
  have hfinal := hmarked.push hpath (rfl : DataType.presence.storage = .presence) (fun _ => hroot)
    (not_mem_labels_marked hcounter)
  refine ⟨hfinal, fun p => ?_, fun p => ?_⟩
  · rw [mem_nested_withTable, labels_withTable, mem_append, hs.marked]
    simp [or_comm]
  · rw [mem_nested_withTable, labels_withTable, mem_append, hs.counted]
    simp [or_comm]

/-- The move of values into the table of a new array, if there are any. -/
def migration (s : Snowflake) (path : Path) : List SchemaChange :=
  if (s.relocated path).2.isEmpty && (s.reparented path).isEmpty then []
  else [.nest (s.tableName (s.nestedPathOf path)) (s.tableName path) (s.newCounter path).physical
    (s.relocated path).2 (s.reparented path)]

/-- What has to be done to the tables for a new array. -/
def arrayChanges (s : Snowflake) (path : Path) : List SchemaChange :=
  .create (s.tableName path) (some (s.tableName (s.nestedPathOf path))) ::
    .add (s.newCounter path).table (s.newCounter path).physical .presence :: s.migration path

theorem nestNew_eq (hcounter : (path, .presence) ∉ s.labels) :
    s.nestNew path = (s.arrayChanges path, s.withTable path) := by
  have hensure := ensureColumn_of_new (not_mem_labels_marked hcounter)
  have hsteps : s.nestNew path = let made := (s.marked path).ensureColumn path .presence
      (.create (s.tableName path) (some (s.tableName (s.nestedPathOf path))) :: made.2.1 ++
        (if (s.relocated path).2.isEmpty && (s.reparented path).isEmpty then []
        else [.nest (s.tableName (s.nestedPathOf path)) (s.tableName path) made.1.physical
          (s.relocated path).2 (s.reparented path)]), made.2.2) := rfl
  rw [hsteps, hensure]
  rfl

/-- Making an array fails at the root only; one that is there stays. -/
theorem Laid.nest_eq (hs : s.Laid) (path : Path) : s.nest path =
    if path = .root then .error (.incompatible path .nested)
    else if path ∈ s.nested then .ok ([], s) else .ok (s.arrayChanges path, s.withTable path) := by
  unfold Snowflake.nest
  by_cases hroot : path = Path.root
  · rw [if_pos hroot, if_pos (by simpa using hroot)]
  · rw [if_neg hroot, if_neg (by simpa using hroot)]
    by_cases hmem : path ∈ s.nested
    · rw [if_pos hmem, if_pos (isNested_iff.2 hmem)]
    · rw [if_neg hmem, if_neg (mt isNested_iff.1 hmem), nestNew_eq (hs.not_mem_labels hmem).2]

end Arrays

section

variable {s : Snowflake} {path : Path}

variable {inner : Path} {type : DataType}

/-- What lies directly in the array around a new array lies in the new one, if
    it is beneath it; what lies deeper stays where it is. -/
theorem homeOf_withArray_of_isUnder (hs : s.ArraysOrdered) (hpath : path.Canonical)
    (hroot : path ≠ .root) (hnew : path ∉ s.nested)
    (hunder : inner.isUnder path) (houtside : type.isOutside → inner ≠ path) :
    (s.withArray path).homeOf inner type =
      if s.homeOf inner type = s.nestedPathOf path then path else s.homeOf inner type := by
  have harrays := hs.withArray hpath hroot
  have hparent := isHome_nestedPathOf hs path
  have hinner : type.isOutside → inner ≠ .root := by
    intro _ heq
    rw [heq, isUnder_iff, keys_root] at hunder
    exact hpath.keys_ne_nil hroot (prefix_nil.1 hunder)
  have hold := isHome_homeOf hs hinner
  have hnewhome := isHome_homeOf harrays hinner
  -- the array around the new one is above it
  have habove : (s.nestedPathOf path).depth < path.depth := by
    refine depth_lt_of_isUnder hpath (hparent.canonical hs) (fun heq => ?_) hparent.under
    rcases hparent.known with h | h
    · exact hroot (heq.trans h)
    · exact hnew (heq ▸ h)
  split
  next hhome =>
    refine hnewhome.unique harrays ⟨⟨.inr (mem_nested_withArray.2 (.inl rfl)), hunder,
      fun h => (houtside h).symm⟩, fun array harray => ?_⟩
    by_cases hself : array = path
    · rw [hself]
    · have hknown : array = .root ∨ array ∈ s.nested :=
        harray.known.imp_right fun h => (mem_nested_withArray.1 h).resolve_left hself
      have hle := hold.deepest array ⟨hknown, harray.under, harray.outside⟩
      rw [hhome] at hle
      omega
  next hhome =>
    refine hnewhome.unique harrays ⟨⟨hold.known.imp_right fun h => mem_nested_withArray.2 (.inr h),
      hold.under, hold.outside⟩, fun array harray => ?_⟩
    by_cases hself : array = path
    · -- a home above the new array would be the array around it
      rw [hself]
      by_contra hlt
      have hpathunder := isUnder_of_depth_le hunder hold.under (by omega)
      have hshallow := hparent.deepest _ ⟨hold.known, hpathunder, fun h => Bool.noConfusion h⟩
      have hdeep := hold.deepest (s.nestedPathOf path)
        ⟨hparent.known, isUnder_trans hunder hparent.under, fun h heq => by
          have hle := depth_le_of_isUnder hunder
          rw [← heq] at hle
          omega⟩
      exact hhome (eq_of_depth_eq (hold.canonical hs) (hparent.canonical hs) hold.under
        (isUnder_trans hunder hparent.under) (by omega))
    · have hknown : array = .root ∨ array ∈ s.nested :=
        harray.known.imp_right fun h => (mem_nested_withArray.1 h).resolve_left hself
      exact hold.deepest array ⟨hknown, harray.under, harray.outside⟩

/-- Values of the parent table beneath a new array are in its table from then
    on: nothing around them is deeper than the array. -/
theorem Laid.homeOf_moved (hs : s.Laid) (hpath : path.Canonical) (hroot : path ≠ .root)
    (hnew : path ∉ s.nested) (hlabel : (inner, type) ∈ s.labels) (hunder : inner.isUnder path) :
    (s.withArray path).homeOf inner type =
      if s.homeOf inner type = s.nestedPathOf path then path else s.homeOf inner type := by
  refine homeOf_withArray_of_isUnder hs.toArraysOrdered hpath hroot hnew hunder ?_
  -- the count of the new array is not there yet
  rintro hout rfl
  cases type with
  | presence => exact (hs.not_mem_labels hnew).2 hlabel
  | nested => exact (hs.not_mem_labels hnew).1 hlabel
  | _ => cases hout

/-- The columns of a table that lie at a path or beneath it. -/
def below (s : Snowflake) (table : String) (path : Path) : List Column :=
  s.columns.filter fun c => c.isPhysical && c.table == table && c.name.isUnder path

/-- The move of a column into the table of an array. -/
def moveInto (path : Path) (c : Column) : ColumnMove :=
  ⟨c.physical, (c.name.relativeTo path).typed c.type, c.type⟩

/-- A new array moves the columns of the parent table that lie beneath it. -/
theorem Laid.moves_relocated (hs : s.Laid) (hpath : path.Canonical) (hroot : path ≠ Path.root)
    (hnew : path ∉ s.nested) :
    (s.relocated path).2 = (s.below (s.tableName (s.nestedPathOf path)) path).map
    (moveInto path) := by
  have harrays := hs.toArraysOrdered.withArray hpath hroot
  -- of what lies beneath the array only the parent table's columns move
  have hmove : ∀ c ∈ s.columns, c.name.isUnder path →
      ((s.withArray path).relocate (s.tableName (s.nestedPathOf path)) (s.tableName path) c).2 =
        if c.isPhysical && c.table == s.tableName (s.nestedPathOf path) then some (moveInto path c)
        else none := by
    intro c hc hunder
    unfold relocate
    dsimp only
    by_cases hparent : (c.isPhysical && c.table == s.tableName (s.nestedPathOf path))
    · obtain ⟨hphysical, htable⟩ := Bool.and_eq_true_iff.1 hparent
      have hlabel : (c.name, c.type) ∈ s.labels := mem_labels.2 ⟨c, hc, rfl, rfl⟩
      have hhome := hs.homeOf_moved hpath hroot hnew hlabel hunder
      rw [if_pos (tableName_inj ((hs.stands c hc).table.symm.trans (eq_of_beq htable)))] at hhome
      have hplace := stands_place harrays (hs.below_root c hc)
      have htarget : ((s.withArray path).place c).table = s.tableName path :=
        hplace.table.trans (congrArg s.tableName hhome)
      have hname : ((s.withArray path).place c).physical =
          (c.name.relativeTo path).typed c.type := by
        refine hplace.physical.trans ((physicalName_eq _ _ _ _).trans ?_)
        refine (if_neg (bne_iff_ne.1 hphysical)).trans ?_
        exact congrArg (fun home => (c.name.relativeTo home).typed c.type) hhome
      rw [htarget, hname, hparent, beq_self_eq_true]
      rfl
    · rw [Bool.eq_false_iff.2 hparent]
      rfl
  unfold relocated relocateAll below
  dsimp only
  rw [← filterMap_eq_map, filterMap_filter, filterMap_filter]
  refine filterMap_congr fun c hc => ?_
  by_cases hunder : c.name.isUnder path
  · rw [if_pos hunder, hmove c hc hunder, hunder, Bool.and_true]
    rfl
  · rw [if_neg hunder, Bool.eq_false_iff.2 hunder, Bool.and_false]
    rfl

end

section

variable {changes : List SchemaChange} {s' : Snowflake}

/-- What can be asked of a catalog, each at a time of its own. -/
inductive Request where
  | column (clock : Float) (path : Path) (type : DataType)
  | array (clock : Float) (path : Path)

/-- The path that a request is about. -/
def Request.path : Request → Path
  | column _ path _ => path
  | array _ path => path

/-- The catalog after a request; one that is refused changes nothing. -/
def ask (s : Snowflake) : Request → Snowflake
  | .column clock path type =>
    match { s with clock }.addColumn path type with
    | .ok (_, _, grown) => grown
    | .error _ => s
  | .array clock path =>
    match { s with clock }.nest path with
    | .ok (_, grown) => grown
    | .error _ => s

variable {s : Snowflake}

theorem laid_empty (fact : String) : (empty fact).Laid where
  increasing := Pairwise.nil
  canonical := forall_mem_nil _
  not_root := not_mem_nil
  unique := nodup_nil
  canonical_name := forall_mem_nil _
  stored := forall_mem_nil _
  below_root := forall_mem_nil _
  stands := forall_mem_nil _
  marked := fun _ => ⟨fun h => absurd h not_mem_nil, fun h => absurd h not_mem_nil⟩
  counted := fun _ => ⟨fun h => absurd h not_mem_nil, fun h => absurd h not_mem_nil⟩

/-- The catalog is the same but for what is counted and when it was. -/
structure SameLayout (s s' : Snowflake) : Prop where
  fact : s'.fact = s.fact
  nested : s'.nested = s.nested
  slots : s'.columns.map Column.slot = s.columns.map Column.slot

theorem SameLayout.labels (h : SameLayout s s') : s'.labels = s.labels := by
  have hfirst : ∀ t : Snowflake, t.labels = (t.columns.map Column.slot).map fun c => (c.1, c.2.1) :=
    fun t => by rw [map_map]; rfl
  rw [hfirst, hfirst, h.slots]

theorem Laid.of_sameLayout (hs : s.Laid) (h : SameLayout s s') : s'.Laid := by
  have hfrom : ∀ {P : Path × DataType × String × List Path × String → Prop},
      (∀ c ∈ s.columns, P c.slot) → ∀ c ∈ s'.columns, P c.slot := by
    intro P hP c hc
    have hslot : c.slot ∈ s.columns.map Column.slot := h.slots ▸ mem_map_of_mem hc
    obtain ⟨d, hd, heq⟩ := mem_map.1 hslot
    exact heq ▸ hP d hd
  have hhome : ∀ path type, s'.homeOf path type = s.homeOf path type := by
    intro path type
    cases type <;> simp [homeOf, nestedPathOf, parentNestedPath, nestedPathList, h.nested]
  have hplace : ∀ c : Column, s.Stands c → s'.Stands c := by
    intro c hc
    refine ⟨?_, ?_, ?_⟩
    · rw [hhome, hc.table, tableName, tableName, h.fact]
    · rw [hhome, hc.nestedPath, nestedPathList, nestedPathList, h.nested]
    · rw [hhome, hc.physical, physicalName_eq, physicalName_eq, tableName, tableName, h.fact]
  have hstands : ∀ c ∈ s'.columns, s.Stands c := by
    intro c hc
    exact hfrom (P := fun slot => slot.2.2.1 = s.tableName (s.homeOf slot.1 slot.2.1) ∧
      slot.2.2.2.1 = s.nestedPathList (s.homeOf slot.1 slot.2.1) ∧
      slot.2.2.2.2 = s.physicalName slot.1 slot.2.1 (s.homeOf slot.1 slot.2.1))
      (fun d hd => ⟨(hs.stands d hd).table, (hs.stands d hd).nestedPath, (hs.stands d hd).physical⟩)
      c hc |> fun ⟨htable, hpath, hname⟩ => ⟨htable, hpath, hname⟩
  refine ⟨⟨⟨?_, ?_, ?_⟩, ?_, ?_, ?_, ?_, ?_⟩, ?_, ?_⟩
  · exact h.nested ▸ hs.increasing
  · exact h.nested ▸ hs.canonical
  · exact h.nested ▸ hs.not_root
  · exact h.labels ▸ hs.unique
  · exact hfrom (P := fun slot => slot.1.Canonical) hs.canonical_name
  · exact hfrom (P := fun slot => slot.2.1.storage = slot.2.1) hs.stored
  · exact hfrom (P := fun slot => slot.2.1.isOutside → slot.1 ≠ .root) hs.below_root
  · exact fun c hc => hplace c (hstands c hc)
  · exact fun path => by rw [h.nested, h.labels]; exact hs.marked path
  · exact fun path => by rw [h.nested, h.labels]; exact hs.counted path

theorem Laid.nest {path : Path} (hs : s.Laid)
    (hpath : path.Canonical) (hnest : s.nest path = .ok (changes, s')) : s'.Laid := by
  rw [hs.nest_eq] at hnest
  split at hnest
  · cases hnest
  next hroot =>
    split at hnest
    · cases hnest
      exact hs
    next hnew =>
      cases hnest
      exact hs.withTable hpath hroot hnew

theorem Laid.addColumn {path : Path} {type : DataType} {c : Column}
    (hs : s.Laid) (hpath : path.Canonical)
    (hadd : s.addColumn path type = .ok (c, changes, s')) : s'.Laid := by
  rcases addColumn_cases hadd with ⟨made, hnest⟩ | ⟨stored, hstored, _, hinside, heq⟩
  · exact hs.nest hpath hnest
  · have hlaid := hs.ensureColumn hpath hstored hinside
    rwa [heq] at hlaid

theorem Laid.ask {request : Request} (hs : s.Laid) (hpath : request.path.Canonical) :
    (s.ask request).Laid := by
  have htimed : ∀ clock : Float, { s with clock }.Laid := fun clock =>
    hs.of_sameLayout ⟨rfl, rfl, rfl⟩
  cases request with
  | column clock path type =>
    unfold Snowflake.ask
    dsimp only
    split
    next hadd => exact (htimed clock).addColumn hpath hadd
    · exact hs
  | array clock path =>
    unfold Snowflake.ask
    dsimp only
    split
    next hnest => exact (htimed clock).nest hpath hnest
    · exact hs

theorem Laid.asks {requests : List Request} (hpaths : ∀ r ∈ requests, r.path.Canonical)
    (hs : s.Laid) : (requests.foldl Snowflake.ask s).Laid := by
  induction requests generalizing s with
  | nil => exact hs
  | cons request rest ih =>
    exact ih (fun r hr => hpaths r (.tail _ hr)) (hs.ask (hpaths request mem_cons_self))

/-- The changes for an array at a path move the columns of the parent table
    that lie there, and no others. -/
structure MovesBeneath (s : Snowflake) (path : Path) (changes : List SchemaChange) : Prop where
  plan : ∀ {parent child counter moves reparent},
    SchemaChange.nest parent child counter moves reparent ∈ changes →
      (∃ home, s.IsHome path .object home ∧ parent = s.tableName home) ∧
      child = s.tableName path ∧ moves = (s.below parent path).map (moveInto path)
  planned : path ∉ s.nested → ∀ {home}, s.IsHome path .object home →
    s.below (s.tableName home) path ≠ [] → ∃ parent child counter moves reparent,
      SchemaChange.nest parent child counter moves reparent ∈ changes

theorem Laid.movesBeneath {path : Path} (hs : s.Laid) (hpath : path.Canonical)
    (hroot : path ≠ .root) : ∃ changes grown, s.nest path = .ok (changes, grown) ∧
      s.MovesBeneath path changes := by
  have hnest := hs.nest_eq path
  rw [if_neg hroot] at hnest
  by_cases hmem : path ∈ s.nested
  · rw [if_pos hmem] at hnest
    exact ⟨_, _, hnest, fun h => absurd h not_mem_nil, fun h => absurd hmem h⟩
  · rw [if_neg hmem] at hnest
    have hmoves := hs.moves_relocated hpath hroot hmem
    have hparent := isHome_nestedPathOf hs.toArraysOrdered path
    refine ⟨_, _, hnest, ?_, ?_⟩
    · intro parent child counter moves reparent hplan
      have hplan : SchemaChange.nest parent child counter moves reparent ∈ s.migration path := by
        simpa [arrayChanges] using hplan
      unfold migration at hplan
      split at hplan
      · cases hplan
      · obtain ⟨rfl, rfl, _, rfl, _⟩ := SchemaChange.nest.inj (mem_singleton.1 hplan)
        exact ⟨⟨_, hparent, rfl⟩, rfl, hmoves⟩
    · intro _ home hhome hbelow
      rw [hhome.unique hs.toArraysOrdered hparent] at hbelow
      have hsome : (s.relocated path).2.isEmpty = false := by
        rw [hmoves]
        simpa using hbelow
      have hplan : s.migration path = [_] := if_neg (by rw [hsome]; exact Bool.false_ne_true)
      have hin : _ ∈ s.arrayChanges path := mem_cons_of_mem _ (mem_cons_of_mem _
        (hplan ▸ mem_singleton_self _))
      exact ⟨_, _, _, _, _, hin⟩

/-- Whatever is asked of a catalog, each column is where the arrays of that
    time say and no two share a place, and an array that is made next moves
    just what lies beneath it in its parent table. -/
theorem columns_stay_placed (fact : String) (requests : List Request)
    (hpaths : ∀ r ∈ requests, r.path.Canonical) :
    (requests.foldl ask (empty fact)).WellPlaced ∧
      ∀ path : Path, path.Canonical → path ≠ Path.root →
        ∃ changes grown, (requests.foldl ask (empty fact)).nest path = .ok (changes, grown) ∧
          (requests.foldl ask (empty fact)).MovesBeneath path changes := by
  have hlaid := (laid_empty fact).asks hpaths
  exact ⟨hlaid.wellPlaced, fun path hpath hroot => hlaid.movesBeneath hpath hroot⟩

/-- Arrays made below, above and between each other, with a request for the
    root and one for a count without an array, which are refused. -/
def interleaved : List Request :=
  [.column 1.0 "a.b.c" .integer, .array 2.0 "a.b", .column 3.0 "a.x" .presence, .array 4.0 ".",
    .column 5.0 "a.\\.d" .string, .array 6.0 "a", .column 7.0 "a.b.c" .string]

theorem columns_stay_placed_interleaved :
    (∀ r ∈ interleaved, r.path.Canonical) ∧ Path.Canonical "a.b.c" ∧ "a.b.c" ≠ Path.root ∧
      (interleaved.foldl ask (empty "t")).WellPlaced ∧
      ∃ changes grown, (interleaved.foldl ask (empty "t")).nest "a.b.c" = .ok (changes, grown) ∧
        (interleaved.foldl ask (empty "t")).MovesBeneath "a.b.c" changes := by
  have hpaths : ∀ r ∈ interleaved, r.path.Canonical := by
    simp only [interleaved, List.forall_mem_cons, Request.path]
    decide +kernel
  have hpath : Path.Canonical "a.b.c" := by decide +kernel
  have hroot : "a.b.c" ≠ Path.root := by decide
  have h := columns_stay_placed "t" interleaved hpaths
  exact ⟨hpaths, hpath, hroot, h.1, h.2 _ hpath hroot⟩

end

end Snowflake

end Snowbank
