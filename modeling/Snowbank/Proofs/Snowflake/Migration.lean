import Snowbank.Proofs.Snowflake.Stored

/-!
# Rows Move into a New Array

When an array appears where values are stored already, every row that has
something for it gets one item, and the item has the number of the row. That
is why arrays beneath the new one need no change: their rows hang on the
number, which is now that of the item.

The counts of these arrays move with the other values, so they are found in
the item under the name that the new catalog has for them. The columns that
move are those beneath the new array, and by the names of columns no other
column of the table is called like one of them.

## Main definitions

* `Opens`: An array can be made at a path.
* `Sound`: Stored rows are closed and fit the catalog.
* `withArray`: The catalog and the rows after an array has been made.

## Theorems

* `Opens.mem_moves`: What moves into a new array.
* `Ready.withArray`: Making an array keeps stored rows sound.
-/

namespace Snowbank

open List Cells Path SchemaChange Snowflake

variable {r : Cells} {n : Path} {column : String}

/-- The columns that rows have whatever the catalog says. -/
def reservedNames : List String := [uidColumn, guidColumn, parentColumn, orderColumn]

/-- The name of a column of values is not that of a column that all rows have. -/
theorem Path.typed_not_reserved (path : Path) (type : DataType) :
    path.typed type ∉ reservedNames := by
  intro hmem
  -- before its last character, a column of values has a dollar sign
  have hdollar : (path.typed type).toList.reverse[1]? = some '$' := by
    unfold typed
    split
    · rw [String.toList_ofList]
      rfl
    · rw [String.toList_append, String.toList_ofList, reverse_append]
      rfl
  have hnone : ∀ name ∈ reservedNames, name.toList.reverse[1]? ≠ some '$' := by decide
  exact hnone _ hmem hdollar

namespace Snowflake

/-- The number of the next row of an array. -/
def nextOf (s : Snowflake) (n : Path) : Int := (Ordered.get? (s.tableName n) s.nextUid).getD 1

/-- The table of an array has a column. -/
def HasCell (s : Snowflake) (n : Path) (column : String) : Prop :=
  ∃ path type, (path, type) ∈ s.labels ∧ type ≠ .nested ∧ s.homeOf path type = n ∧
    s.columnName path type = column

/-- A row has values in columns of its table only. -/
def Holds (s : Snowflake) (n : Path) (r : Cells) : Prop :=
  ∀ column, column ∉ reservedNames → ¬s.HasCell n column → r column = .null

section

variable {s : Snowflake} {path : Path}

theorem Laid.of_label (hs : s.Laid) {type : DataType} (h : (path, type) ∈ s.labels) :
    path.Canonical ∧ type.storage = type ∧ (type.isOutside → path ≠ .root) := by
  obtain ⟨c, hc, rfl, rfl⟩ := mem_labels.1 h
  exact ⟨hs.canonical_name c hc, hs.stored c hc, hs.below_root c hc⟩

theorem Laid.columnName_inj (hs : s.Laid) {p q : Path} {t u : DataType} (hp : (p, t) ∈ s.labels)
    (hq : (q, u) ∈ s.labels) (ht : t ≠ .nested) (hu : u ≠ .nested)
    (hhome : s.homeOf p t = s.homeOf q u) (hname : s.columnName p t = s.columnName q u) :
    p = q ∧ t = u := by
  obtain ⟨c, hc, rfl, rfl⟩ := mem_labels.1 hp
  obtain ⟨d, hd, rfl, rfl⟩ := mem_labels.1 hq
  have hphysical : ∀ {e : Column}, e ∈ s.columns → e.type ≠ .nested →
      e.physical = s.columnName e.name e.type := by
    intro e he hne
    rw [(hs.stands e he).physical, physicalName_eq, if_neg hne]
    rfl
  have hlabel := hs.label_eq hc hd (bne_iff_ne.2 ht) (bne_iff_ne.2 hu)
    (by rw [(hs.stands c hc).table, (hs.stands d hd).table, hhome])
    (by rw [hphysical hc ht, hphysical hd hu, hname])
  exact Prod.mk.inj hlabel

/-- An array can be made at a path. -/
structure Opens (s : Snowflake) (path : Path) : Prop extends s.Laid where
  canonical_path : path.Canonical
  not_at_root : path ≠ .root
  new : path ∉ s.nested

section

variable (h : s.Opens path)

include h

theorem Opens.withTable : (s.withTable path).Laid :=
  h.toLaid.withTable h.canonical_path h.not_at_root h.new

theorem Opens.homeOf_moved {p : Path} {t : DataType} (hlabel : (p, t) ∈ s.labels)
    (hunder : p.isUnder path) : (s.withTable path).homeOf p t =
      if s.homeOf p t = s.nestedPathOf path then path else s.homeOf p t :=
  h.toLaid.homeOf_moved h.canonical_path h.not_at_root h.new hlabel hunder

theorem Opens.mem_moves {m : ColumnMove} :
    m ∈ (s.relocated path).2 ↔ ∃ p t, (p, t) ∈ s.labels ∧ t ≠ .nested ∧ p.isUnder path ∧
      s.homeOf p t = s.nestedPathOf path ∧
      m = ⟨s.columnName p t, (p.relativeTo path).typed t, t⟩ := by
  have hs := h.toLaid
  rw [hs.moves_relocated h.canonical_path h.not_at_root h.new, mem_map]
  constructor
  · rintro ⟨c, hc, rfl⟩
    obtain ⟨hc, hcond⟩ := mem_filter.1 hc
    simp only [Bool.and_eq_true, beq_iff_eq] at hcond
    obtain ⟨⟨hphysical, htable⟩, hunder⟩ := hcond
    have hne : c.type ≠ .nested := bne_iff_ne.1 hphysical
    refine ⟨c.name, c.type, mem_labels.2 ⟨c, hc, rfl, rfl⟩, hne, hunder,
      tableName_inj ((hs.stands c hc).table.symm.trans htable), ?_⟩
    rw [moveInto, (hs.stands c hc).physical, physicalName_eq, if_neg hne]
    rfl
  · rintro ⟨p, t, hlabel, hne, hunder, hhome, rfl⟩
    obtain ⟨c, hc, rfl, rfl⟩ := mem_labels.1 hlabel
    refine ⟨c, mem_filter.2 ⟨hc, ?_⟩, ?_⟩
    · rw [(hs.stands c hc).table, hhome, hunder, Column.isPhysical, bne_iff_ne.2 hne,
        beq_self_eq_true]
      rfl
    · rw [moveInto, (hs.stands c hc).physical, physicalName_eq, if_neg hne]
      rfl

theorem Opens.parent_self :
    (s.withTable path).parentNestedPath path = s.nestedPathOf path := by
  have hs := h.toArraysOrdered
  have harrays := hs.withArray h.canonical_path h.not_at_root
  have hparent := isHome_nestedPathOf hs path
  refine (isHome_parentNestedPath harrays h.not_at_root).unique harrays
    ⟨⟨hparent.known.imp_right fun h => mem_nested_withArray.2 (.inr h), hparent.under,
      fun _ heq => ?_⟩, fun array harray => ?_⟩
  · rcases hparent.known with hknown | hknown
    · exact h.not_at_root (heq.symm.trans hknown)
    · exact h.new (heq ▸ hknown)
  · have hknown : array = .root ∨ array ∈ s.nested :=
      harray.known.imp_right fun h => (mem_nested_withArray.1 h).resolve_left (harray.outside rfl)
    exact hparent.deepest array ⟨hknown, harray.under, fun h => Bool.noConfusion h⟩

/-- The arrays directly in the array around a new one lie in the new one from
    then on, if they are beneath it. -/
theorem Opens.parent_withTable (hn : n ∈ s.nested) : (s.withTable path).parentNestedPath n =
      if n.isUnder path ∧ s.parentNestedPath n = s.nestedPathOf path then path
      else s.parentNestedPath n := by
  by_cases hunder : n.isUnder path
  · have hne : n ≠ path := fun heq => h.new (heq ▸ hn)
    have hhome :=
      homeOf_withArray_of_isUnder h.toArraysOrdered h.canonical_path h.not_at_root h.new hunder
      fun _ : DataType.presence.isOutside = true => hne
    rw [show (s.withTable path).parentNestedPath n = _ from hhome]
    simp only [hunder, true_and]
    rfl
  · rw [if_neg fun h => hunder h.1]
    exact homeOf_withArray (Bool.eq_false_iff.2 hunder) .presence

end

end

end Snowflake

namespace Stored

/-- Stored rows are closed and fit the catalog: there are tables for them,
    their numbers are used up, and they have values in columns that exist. -/
structure Sound (st : Stored) : Prop where
  laid : st.snowflake.Laid
  known : ∀ table, st.tables table ≠ [] →
    ∃ n, (n = .root ∨ n ∈ st.snowflake.nested) ∧ table = st.snowflake.tableName n
  closed : st.snowflake.Closed st.rowsAt
  used : ∀ n, ∀ r ∈ st.rowsAt n, ∃ uid : Int, r.uid = .int uid ∧ uid < st.snowflake.nextOf n
  filled : ∀ n, ∀ r ∈ st.rowsAt n, st.snowflake.Holds n r

theorem Sound.wellFormed {st : Stored} (h : st.Sound) : st.WellFormed :=
  h.closed.wellFormed h.laid fun table ht => (h.known table ht).imp fun _ hn => hn.2

/-- The catalog and the rows after an array has been made. -/
def withArray (st : Stored) (path : Path) : Stored := ⟨st.snowflake.withTable path,
    (st.snowflake.arrayChanges path).foldl apply st.tables⟩

/-- The values that a new array takes. -/
def moves (st : Stored) (path : Path) : List ColumnMove := (st.snowflake.relocated path).2

/-- A row has something for a new array. -/
def gives (st : Stored) (path : Path) : Cells → Bool :=
  st.tables.gives (st.moves path) (st.snowflake.reparented path)

/-- What is left of a row when a new array has taken what is its own. -/
def left (st : Stored) (path : Path) (r : Cells) : Cells :=
  if st.gives path r then r.without (st.snowflake.newCounter path).physical (st.moves path) else r

section

variable {st : Stored} {path : Path}

/-- An array that takes nothing changes no rows. -/
theorem tables_withArray (st : Stored) (path : Path) : (st.withArray path).tables = apply st.tables
      (.nest (st.snowflake.tableName (st.snowflake.nestedPathOf path)) (st.snowflake.tableName path)
        (st.snowflake.newCounter path).physical (st.moves path)
        (st.snowflake.reparented path)) := by
  change (st.snowflake.migration path).foldl apply st.tables = _
  unfold migration
  split
  next hnone =>
    obtain ⟨hmoves, hreparent⟩ := Bool.and_eq_true_iff.1 hnone
    have hgives :
      ∀ r, st.tables.gives (st.moves path) (st.snowflake.reparented path) r = false := by
      intro r
      rw [moves, List.isEmpty_iff.1 hmoves, List.isEmpty_iff.1 hreparent]
      rfl
    have hnobody : ∀ rows : List Cells,
        rows.filter (st.tables.gives (st.moves path) (st.snowflake.reparented path)) =
          [] := fun rows =>
      filter_eq_nil_iff.2 fun r _ => Bool.eq_false_iff.1 (hgives r)
    funext table
    simp only [apply, hnobody, hgives, map_nil, append_nil,
      Bool.false_eq_true, if_false, map_id', foldl_nil]
    split
    next h => rw [h]
    · split
      next h => rw [h]
      · rfl
  · rfl

theorem rowsAt_withArray_self (hne : st.rowsAt path = []) : (st.withArray path).rowsAt path =
    ((st.rowsAt (st.snowflake.nestedPathOf path)).filter (st.gives path)).map
      (Cells.item (st.moves path)) := by
  unfold rowsAt at hne ⊢
  rw [tables_withArray]
  change (if st.snowflake.tableName path = st.snowflake.tableName path then _ else _) = _
  rw [if_pos rfl, hne]
  rfl

theorem rowsAt_withArray_home (hne : st.snowflake.nestedPathOf path ≠ path) :
    (st.withArray path).rowsAt (st.snowflake.nestedPathOf path) =
      (st.rowsAt (st.snowflake.nestedPathOf path)).map (st.left path) := by
  unfold rowsAt
  rw [tables_withArray]
  change (if st.snowflake.tableName (st.snowflake.nestedPathOf path) = _ then _ else _) = _
  rw [if_neg fun h => hne (tableName_inj h)]
  change (if st.snowflake.tableName (st.snowflake.nestedPathOf path) = _ then _ else _) = _
  rw [if_pos rfl]
  rfl

theorem rowsAt_withArray_of_ne (hn : n ≠ path) (hhome : n ≠ st.snowflake.nestedPathOf path) :
    (st.withArray path).rowsAt n = st.rowsAt n := by
  unfold rowsAt
  rw [tables_withArray]
  change (if st.snowflake.tableName n = _ then _ else _) = _
  rw [if_neg fun h => hn (tableName_inj h)]
  change (if st.snowflake.tableName n = _ then _ else _) = _
  rw [if_neg fun h => hhome (tableName_inj h)]
  rfl

end

section Moving

variable {m : ColumnMove} {p : Path} {t : DataType} {n : Path}

open Snowflake

/-- An array can be made at a path of stored rows. -/
structure Ready (st : Stored) (path : Path) : Prop extends st.Sound, st.snowflake.Opens path

variable {st : Stored} {path : Path} (h : st.Ready path)

include h

theorem Ready.home_ne : st.snowflake.nestedPathOf path ≠ path := by
  intro heq
  rcases (isHome_nestedPathOf h.toArraysOrdered path).known with hh | hh
  · exact h.not_at_root (heq.symm.trans hh)
  · exact h.new (heq ▸ hh)

theorem Ready.rowsAt_eq_nil : st.rowsAt path = [] := by
  by_contra hne
  obtain ⟨n, hn, heq⟩ := h.known _ hne
  rw [← tableName_inj heq] at hn
  exact hn.elim h.not_at_root h.new

theorem Ready.physical_newCounter :
    (st.snowflake.newCounter path).physical = (st.snowflake.withTable path).counterName path :=
  (stands_place (h.toOpens.withTable).toArraysOrdered
    (c := st.snowflake.newCounter path) fun _ => h.not_at_root).physical

/-- The values that move are in columns of values. -/
theorem Ready.moves_not_reserved (hm : m ∈ st.moves path) :
    m.source ∉ reservedNames ∧ m.target ∉ reservedNames := by
  obtain ⟨p, t, _, _, _, _, rfl⟩ := (h.mem_moves).1 hm
  exact ⟨typed_not_reserved _ _, typed_not_reserved _ _⟩

/-- A row keeps its number and its place. -/
theorem Ready.left_reserved (hcolumn : column ∈ reservedNames) (r : Cells) :
    st.left path r column = r column := by
  unfold left
  split
  · have hcounter : column ≠ (st.snowflake.newCounter path).physical := by
      rintro rfl
      rw [h.physical_newCounter] at hcolumn
      exact typed_not_reserved _ _ hcolumn
    have hsource : (st.moves path).any (fun m => m.source == column) = false := by
      refine any_eq_false.2 fun m hm heq => ?_
      rw [← eq_of_beq heq] at hcolumn
      exact (h.moves_not_reserved hm).1 hcolumn
    rw [without, if_neg hcounter, hsource]
    rfl
  · rfl

theorem Ready.uid_left (r : Cells) : (st.left path r).uid = r.uid :=
  h.left_reserved (by decide) r

theorem Ready.parent_left (r : Cells) : (st.left path r).parent = r.parent :=
  h.left_reserved (by decide) r

/-- A value that a new array takes is found in the item. -/
theorem Ready.item_target (hlabel : (p, t) ∈ st.snowflake.labels)
    (ht : t ≠ .nested) (hunder : p.isUnder path)
    (hhome : st.snowflake.homeOf p t = st.snowflake.nestedPathOf path) (r : Cells) :
    Cells.item (st.moves path) r ((p.relativeTo path).typed t) =
      r (st.snowflake.columnName p t) := by
  have hmove := (h.mem_moves).2 ⟨p, t, hlabel, ht, hunder, hhome, rfl⟩
  have hreserved := typed_not_reserved (p.relativeTo path) t
  have hne : ∀ {name : String}, name ∈ reservedNames → (p.relativeTo path).typed t ≠ name :=
    fun hname heq => hreserved (heq ▸ hname)
  unfold Cells.item
  rw [if_neg (by rintro (heq | heq) <;> exact hne (by decide) heq), if_neg (hne (by decide))]
  cases hfound : (st.moves path).find? fun m => m.target == (p.relativeTo path).typed t with
  | none => exact absurd (beq_self_eq_true _) (find?_eq_none.1 hfound _ hmove)
  | some m =>
    -- no two columns have one name in the new table
    obtain ⟨q, u, hq, hu, hqunder, hqhome, rfl⟩ :=
      (h.mem_moves).1 (mem_of_find?_eq_some hfound)
    have hmatch := find?_some hfound
    have htarget : (q.relativeTo path).typed u = (p.relativeTo path).typed t := eq_of_beq hmatch
    obtain ⟨hname, htype⟩ :=
      typed_relativeTo_inj (h.laid.of_label hq).1 (h.laid.of_label hlabel).1 hqunder hunder htarget
    rw [(h.laid.of_label hq).2.1, (h.laid.of_label hlabel).2.1] at htype
    rw [hname, htype]

theorem Ready.left_of_stays (r : Cells)
    (hcounter : column ≠ (st.snowflake.withTable path).counterName path)
    (hsource : ∀ m ∈ st.moves path, m.source ≠ column) : st.left path r column = r column := by
  unfold left
  split
  · have hnone : (st.moves path).any (fun m => m.source == column) = false :=
      any_eq_false.2 fun m hm heq => hsource m hm (eq_of_beq heq)
    rw [without, h.physical_newCounter, if_neg hcounter, hnone]
    rfl
  · rfl

omit h in
/-- Nothing moves out of a row that has nothing for a new array. -/
theorem source_eq_null (hm : m ∈ st.moves path)
    (hgives : st.gives path r = false) : r m.source = .null := by
  have hnone := any_eq_false.1 (Bool.or_eq_false_iff.1 hgives).1 m hm
  cases hvalue : r m.source with
  | null => rfl
  | _ =>
    rw [hvalue] at hnone
    exact absurd rfl hnone

theorem Ready.left_source (hm : m ∈ st.moves path) (r : Cells)
    (hcounter : m.source ≠ (st.snowflake.withTable path).counterName path) :
    st.left path r m.source = .null := by
  unfold left
  split
  · have hsome : (st.moves path).any (fun other => other.source == m.source) :=
      any_eq_true.2 ⟨m, hm, beq_self_eq_true _⟩
    rw [without, h.physical_newCounter, if_neg hcounter, hsome]
    rfl
  next hgives => exact source_eq_null hm (Bool.eq_false_iff.2 hgives)

/-- Rows that hang on a row come to hang on its item. -/
theorem Ready.gives_of_row (hn : n ∈ st.snowflake.nested) (hunder : n.isUnder path)
    (hparent : st.snowflake.parentNestedPath n = st.snowflake.nestedPathOf path) {q : Cells}
    (hr : r ∈ st.rowsAt (st.snowflake.nestedPathOf path)) (hq : q ∈ st.rowsAt n)
    (heq : q.parent = r.uid) : st.gives path r := by
  have htable : st.snowflake.tableName n ∈ st.snowflake.reparented path := by
    refine mem_map_of_mem (mem_filter.2 ⟨hn, ?_⟩)
    rw [hunder, hparent, beq_self_eq_true]
    rfl
  have hself : (q.parent == r.uid) := by
    obtain ⟨uid, huid⟩ := h.closed.numbered _ r hr
    rw [heq, huid, Json.int_beq_int, beq_self_eq_true]
  refine Bool.or_eq_true_iff.2 (.inr ?_)
  exact any_eq_true.2 ⟨_, htable, any_eq_true.2 ⟨q, hq, hself⟩⟩

theorem Ready.not_hasCell_counter : ¬st.snowflake.HasCell (st.snowflake.nestedPathOf path)
    ((st.snowflake.withTable path).counterName path) := by
  rintro ⟨p, t, hlabel, _, hhome, hname⟩
  have hs := h.toArraysOrdered
  have hcounter : (st.snowflake.withTable path).counterName path =
      (path.relativeTo (st.snowflake.nestedPathOf path)).typed .presence :=
    congrArg (fun home => (path.relativeTo home).typed .presence)
      (h.parent_self)
  rw [hcounter, columnName, hhome] at hname
  obtain ⟨hcanonical, hstored, hbelow⟩ := h.laid.of_label hlabel
  have hunder := (isHome_homeOf hs hbelow).under
  rw [hhome] at hunder
  obtain ⟨rfl, htype⟩ :=
    typed_relativeTo_inj hcanonical h.canonical_path hunder
      (isHome_nestedPathOf hs path).under hname
  have hpresence : t = .presence := hstored.symm.trans htype
  exact (h.not_mem_labels h.new).2 (hpresence ▸ hlabel)

theorem Ready.left_columnName (hlabel : (p, t) ∈ st.snowflake.labels)
    (ht : t ≠ .nested) (hhome : st.snowflake.homeOf p t = st.snowflake.nestedPathOf path)
    (hunder : p.isUnder path = false) (r : Cells) :
    st.left path r (st.snowflake.columnName p t) = r (st.snowflake.columnName p t) := by
  have hlaid := h.toOpens.withTable
  have hstays : (st.snowflake.withTable path).homeOf p t = st.snowflake.homeOf p t :=
    homeOf_withArray hunder t
  have hlabels : (p, t) ∈ (st.snowflake.withTable path).labels := by
    rw [labels_withTable]
    exact mem_append_left _ hlabel
  -- the column and the new count are columns of the new catalog in one table
  have hsame : (st.snowflake.withTable path).homeOf p t =
      (st.snowflake.withTable path).homeOf path .presence :=
    hstays.trans (hhome.trans
      (h.parent_self).symm)
  have hname : (st.snowflake.withTable path).columnName p t = st.snowflake.columnName p t :=
    congrArg (fun home => (p.relativeTo home).typed t) hstays
  refine h.left_of_stays r (fun heq => ?_) fun m hm heq => ?_
  · have hcounter := hlaid.columnName_inj hlabels
      ((hlaid.counted path).1 (mem_nested_withTable.2 (.inl rfl))) ht (by decide) hsame
      (hname.trans heq)
    rw [hcounter.1, isUnder_refl] at hunder
    cases hunder
  · obtain ⟨q, u, hq, hu, hqunder, hqhome, rfl⟩ := (h.mem_moves).1 hm
    have hmoved := h.laid.columnName_inj hq hlabel hu ht (hqhome.trans hhome.symm) heq
    rw [hmoved.1, hunder] at hqunder
    cases hqunder

/-- Where an array is not reparented, its count stays where it is. -/
theorem Ready.left_counterName (hn : n ∈ st.snowflake.nested)
    (hparent : st.snowflake.parentNestedPath n = st.snowflake.nestedPathOf path)
    (hunder : n.isUnder path = false) (r : Cells) :
    st.left path r (st.snowflake.counterName n) = r (st.snowflake.counterName n) :=
  h.left_columnName ((h.laid.counted n).1 hn) (by decide) hparent hunder r

/-- In the array around a new one, as many rows hang on a row as before. -/
theorem Ready.filter_left {rows : List Cells} (p : Cells) :
    ((rows.map (st.left path)).filter fun r => r.parent == p.uid).map order =
      (rows.filter fun r => r.parent == p.uid).map order := by
  rw [filter_map, map_map]
  have hfilter : (fun r => r.parent == p.uid) ∘ st.left path = fun r => r.parent == p.uid := by
    funext r
    rw [Function.comp_apply, h.parent_left]
  rw [hfilter]
  exact map_congr_left fun r _ => h.left_reserved (by decide) r

/-- Rows of an array keep their numbers, and what hangs on them. -/
theorem Ready.rowsAt_withArray (hn : n ≠ path) :
    ∃ f : Cells → Cells, (st.withArray path).rowsAt n = (st.rowsAt n).map f ∧
      (∀ r, (f r).uid = r.uid ∧ (f r).parent = r.parent) ∧
      ∀ p : Cells, (((st.withArray path).rowsAt n).filter fun r => r.parent == p.uid).map order =
        ((st.rowsAt n).filter fun r => r.parent == p.uid).map order := by
  have hne := h.home_ne
  by_cases hhome : n = st.snowflake.nestedPathOf path
  · rw [hhome, rowsAt_withArray_home hne]
    exact ⟨_, rfl, fun r => ⟨h.uid_left r, h.parent_left r⟩,
      h.filter_left⟩
  · rw [rowsAt_withArray_of_ne hn hhome]
    exact ⟨id, (map_id _).symm, fun r => ⟨rfl, rfl⟩, fun _ => rfl⟩

theorem Ready.mem_items : r ∈ (st.withArray path).rowsAt path ↔
    ∃ p ∈ st.rowsAt (st.snowflake.nestedPathOf path), st.gives path p ∧
      r = Cells.item (st.moves path) p := by
  rw [rowsAt_withArray_self (h.rowsAt_eq_nil), mem_map]
  constructor
  · rintro ⟨p, hp, rfl⟩
    exact ⟨p, (mem_filter.1 hp).1, (mem_filter.1 hp).2, rfl⟩
  · rintro ⟨p, hp, hgives, rfl⟩
    exact ⟨p, mem_filter.2 ⟨hp, hgives⟩, rfl⟩

/-- On a row that has something for a new array hangs one item, and none on any other. -/
theorem Ready.filter_items {p : Cells} (hp : p ∈ st.rowsAt (st.snowflake.nestedPathOf path)) :
    (((st.withArray path).rowsAt path).filter fun r => r.parent == p.uid) =
      if st.gives path p then [Cells.item (st.moves path) p] else [] := by
  have hitems : (st.withArray path).rowsAt path =
      (st.rowsAt (st.snowflake.nestedPathOf path)).flatMap fun q =>
        if st.gives path q then [Cells.item (st.moves path) q] else [] := by
    rw [rowsAt_withArray_self (h.rowsAt_eq_nil), ← filterMap_eq_map,
      filterMap_filter, filterMap_eq_flatMap_toList]
    refine flatMap_congr fun q _ => ?_
    split <;> rfl
  rw [hitems]
  refine filter_flatMap_owner (h.closed.unique _) hp fun q hq b hb => ?_
  split at hb
  · rw [mem_singleton.1 hb]
    exact beq_uid (h.closed.numbered _ q hq) (h.closed.numbered _ p hp)
  · cases hb

theorem Ready.closed_withArray :
    (st.withArray path).snowflake.Closed (st.withArray path).rowsAt := by
  have hs := h.toArraysOrdered
  have hne := h.home_ne
  have hself := h.parent_self
  -- an array that was there has a parent that was there
  have hother : ∀ {n : Path}, n ∈ st.snowflake.nested → n ≠ path := fun hn heq => h.new (heq ▸ hn)
  have hparent : ∀ {n : Path}, n ∈ st.snowflake.nested →
    st.snowflake.parentNestedPath n ≠ path := by
    intro n hn heq
    have hroot' : n ≠ .root := fun h0 => hs.not_root (h0 ▸ hn)
    rcases (isHome_parentNestedPath hs hroot').known with hh | hh
    · exact h.not_at_root (heq.symm.trans hh)
    · exact h.new (heq ▸ hh)
  refine ⟨fun n r hr => ?_, fun n => ?_, fun n hn r hr => ?_, fun n hn p hp => ?_⟩
  · by_cases hn : n = path
    · rw [hn] at hr
      obtain ⟨p, hp, _, rfl⟩ := (h.mem_items).1 hr
      exact h.closed.numbered _ p hp
    · obtain ⟨f, hrows, hkept, _⟩ := h.rowsAt_withArray hn
      rw [hrows] at hr
      obtain ⟨q, hq, rfl⟩ := mem_map.1 hr
      rw [(hkept q).1]
      exact h.closed.numbered n q hq
  · by_cases hn : n = path
    · rw [hn, rowsAt_withArray_self (h.rowsAt_eq_nil), map_map]
      exact (h.closed.unique _).sublist (filter_sublist.map Cells.uid)
    · obtain ⟨f, hrows, hkept, _⟩ := h.rowsAt_withArray hn
      have huids : (st.rowsAt n).map (Cells.uid ∘ f) = (st.rowsAt n).map Cells.uid :=
        map_congr_left fun r _ => (hkept r).1
      rw [hrows, map_map, huids]
      exact h.closed.unique n
  · rcases mem_nested_withTable.1 hn with rfl | hn
    · -- the items of the new array
      obtain ⟨p, hp, _, rfl⟩ := (h.mem_items).1 hr
      refine ⟨st.left n p, ?_, (h.uid_left p).symm⟩
      change _ ∈ (st.withArray n).rowsAt ((st.snowflake.withTable n).parentNestedPath n)
      rw [hself, rowsAt_withArray_home hne]
      exact mem_map_of_mem hp
    · obtain ⟨f, hrows, hkept, _⟩ := h.rowsAt_withArray (hother hn)
      rw [hrows] at hr
      obtain ⟨q, hq, rfl⟩ := mem_map.1 hr
      obtain ⟨p, hp, hhangs⟩ := h.closed.attached n hn q hq
      rw [(hkept q).2, hhangs]
      change ∃ p' ∈ (st.withArray path).rowsAt ((st.snowflake.withTable path).parentNestedPath n), _
      rw [h.parent_withTable hn]
      split
      next hmoves =>
        rw [hmoves.2] at hp
        have hgives := h.gives_of_row hn hmoves.1 hmoves.2 hp hq hhangs
        exact ⟨_, (h.mem_items).2 ⟨p, hp, hgives, rfl⟩, rfl⟩
      · obtain ⟨g, hrows', hkept', _⟩ := h.rowsAt_withArray (hparent hn)
        rw [hrows']
        exact ⟨g p, mem_map_of_mem hp, (hkept' p).1.symm⟩
  · rcases mem_nested_withTable.1 hn with rfl | hn
    · change p ∈ (st.withArray n).rowsAt ((st.snowflake.withTable n).parentNestedPath n) at hp
      rw [hself, rowsAt_withArray_home hne] at hp
      obtain ⟨q, hq, rfl⟩ := mem_map.1 hp
      rw [h.uid_left, h.filter_items hq]
      by_cases hgives : st.gives n q
      · refine ⟨1, by rw [if_pos hgives]; rfl, ?_⟩
        rw [left, if_pos hgives, h.physical_newCounter]
        exact if_pos rfl
      · refine ⟨0, by rw [if_neg hgives]; rfl, ?_⟩
        rw [left, if_neg hgives]
        exact h.filled _ q hq _ (typed_not_reserved _ _) (h.not_hasCell_counter)
    · obtain ⟨f, hrows, hkept, horders⟩ := h.rowsAt_withArray (hother hn)
      change p ∈ (st.withArray path).rowsAt ((st.snowflake.withTable path).parentNestedPath n) at hp
      have hmoved := h.parent_withTable hn
      split at hmoved
      · -- the count of an array that comes to lie in the new one has moved
        rename_i hmoves
        rw [hmoved] at hp
        obtain ⟨q, hq, _, rfl⟩ := (h.mem_items).1 hp
        obtain ⟨k, hk, hcount⟩ := h.closed.counted n hn q (hmoves.2 ▸ hq)
        refine ⟨k, (horders q).trans hk, ?_⟩
        rw [← hcount]
        refine Eq.trans ?_ (h.item_target ((h.laid.counted n).1 hn) (by decide)
          hmoves.1 hmoves.2 q)
        exact congrArg
          (fun home => Cells.item (st.moves path) q ((n.relativeTo home).typed .presence))
          hmoved
      next hstays =>
        rw [hmoved] at hp
        have hname : (st.snowflake.withTable path).counterName n = st.snowflake.counterName n :=
          congrArg (fun home => (n.relativeTo home).typed .presence) hmoved
        by_cases hhome : st.snowflake.parentNestedPath n = st.snowflake.nestedPathOf path
        · rw [hhome, rowsAt_withArray_home hne] at hp
          obtain ⟨q, hq, rfl⟩ := mem_map.1 hp
          obtain ⟨k, hk, hcount⟩ := h.closed.counted n hn q (hhome ▸ hq)
          refine ⟨k, ?_, ?_⟩
          · rw [h.uid_left]
            exact (horders q).trans hk
          · change st.left path q ((st.snowflake.withTable path).counterName n) = _
            rw [hname, h.left_counterName hn hhome
              (Bool.eq_false_iff.2 fun hu => hstays ⟨hu, hhome⟩)]
            exact hcount
        · rw [rowsAt_withArray_of_ne (hparent hn) hhome] at hp
          obtain ⟨k, hk, hcount⟩ := h.closed.counted n hn p hp
          exact ⟨k, (horders p).trans hk, (congrArg p hname).trans hcount⟩

/-- A column is where it was, unless it has moved into the new array. -/
theorem Ready.hasCell_withArray (hlabel : (p, t) ∈ st.snowflake.labels) (ht : t ≠ .nested)
    (hstays : p.isUnder path = false ∨ st.snowflake.homeOf p t ≠ st.snowflake.nestedPathOf path) :
    (st.withArray path).snowflake.HasCell (st.snowflake.homeOf p t)
    (st.snowflake.columnName p t) := by
  have hhome : (st.snowflake.withTable path).homeOf p t = st.snowflake.homeOf p t := by
    by_cases hunder : p.isUnder path
    · refine (h.homeOf_moved hlabel hunder).trans (if_neg ?_)
      exact hstays.resolve_left (by rw [hunder]; exact Bool.noConfusion)
    · exact homeOf_withArray (Bool.eq_false_iff.2 hunder) t
  refine ⟨p, t, ?_, ht, hhome, congrArg (fun home => (p.relativeTo home).typed t) hhome⟩
  rw [withArray, labels_withTable]
  exact mem_append_left _ hlabel

theorem Ready.hasCell_counter : (st.withArray path).snowflake.HasCell
    (st.snowflake.nestedPathOf path) ((st.snowflake.withTable path).counterName path) := by
  refine ⟨path, .presence, ?_, by decide,
    h.parent_self, rfl⟩
  rw [withArray, labels_withTable]
  exact mem_append_right _ (by simp)

theorem Ready.hasCell_target (hm : m ∈ st.moves path) :
    (st.withArray path).snowflake.HasCell path m.target := by
  obtain ⟨p, t, hlabel, ht, hunder, hhome, rfl⟩ := (h.mem_moves).1 hm
  have hmoved : (st.snowflake.withTable path).homeOf p t = path :=
    (h.homeOf_moved hlabel hunder).trans (if_pos hhome)
  refine ⟨p, t, ?_, ht, hmoved, congrArg (fun home => (p.relativeTo home).typed t) hmoved⟩
  rw [withArray, labels_withTable]
  exact mem_append_left _ hlabel

/-- After an array has been made, rows have values in columns that exist. -/
theorem Ready.filled_withArray (hr : r ∈ (st.withArray path).rowsAt n)
    (hcolumn : column ∉ reservedNames)
    (hnone : ¬(st.withArray path).snowflake.HasCell n column) : r column = .null := by
  have hne := h.home_ne
  by_cases hn : n = path
  · rw [hn] at hr hnone
    obtain ⟨p, _, _, rfl⟩ := (h.mem_items).1 hr
    have hother : ∀ {name : String}, name ∈ reservedNames → column ≠ name :=
      fun hname heq => hcolumn (heq ▸ hname)
    -- an item of the new array has what has moved into it
    unfold Cells.item
    rw [if_neg (by rintro (heq | heq) <;> exact hother (by decide) heq),
      if_neg (hother (by decide))]
    cases hfound : (st.moves path).find? fun m => m.target == column with
    | none => rfl
    | some m =>
      have hmatch := find?_some hfound
      refine absurd ?_ hnone
      rw [← eq_of_beq hmatch]
      exact h.hasCell_target (mem_of_find?_eq_some hfound)
  · by_cases hhome : n = st.snowflake.nestedPathOf path
    · rw [hhome] at hr hnone
      rw [rowsAt_withArray_home hne] at hr
      obtain ⟨p, hp, rfl⟩ := mem_map.1 hr
      have hcounter : column ≠ (st.snowflake.withTable path).counterName path := by
        rintro rfl
        exact hnone (h.hasCell_counter)
      -- in the array around it columns have moved, or stayed
      by_cases hsource : ∃ m ∈ st.moves path, m.source = column
      · obtain ⟨m, hm, rfl⟩ := hsource
        exact h.left_source hm p hcounter
      · rw [h.left_of_stays p hcounter fun m hm heq => hsource ⟨m, hm, heq⟩]
        refine h.filled _ p hp column hcolumn ?_
        rintro ⟨q, t, hlabel, ht, hqhome, rfl⟩
        by_cases hunder : q.isUnder path
        · exact hsource ⟨_, (h.mem_moves).2
            ⟨q, t, hlabel, ht, hunder, hqhome, rfl⟩, rfl⟩
        · exact hnone (hqhome ▸ h.hasCell_withArray hlabel ht
            (.inl (Bool.eq_false_iff.2 hunder)))
    · -- elsewhere nothing changes
      rw [rowsAt_withArray_of_ne hn hhome] at hr
      refine h.filled n r hr column hcolumn ?_
      rintro ⟨q, t, hlabel, ht, rfl, rfl⟩
      exact hnone (h.hasCell_withArray hlabel ht (.inr hhome))

omit h in
theorem nextOf_withArray (n : Path) : (st.withArray path).snowflake.nextOf n =
    if n = path then st.snowflake.nextOf (st.snowflake.nestedPathOf path)
    else st.snowflake.nextOf n := by
  change (Ordered.get? (st.snowflake.tableName n) (Ordered.insert (st.snowflake.tableName path) _
    st.snowflake.nextUid)).getD 1 = _
  rw [Ordered.get?_insert]
  by_cases hn : n = path
  · rw [if_pos hn, if_pos (congrArg _ hn)]
    rfl
  · rw [if_neg hn, if_neg fun heq => hn (tableName_inj heq)]
    rfl

theorem Ready.withArray : (st.withArray path).Sound where
  laid := h.toOpens.withTable
  known := by
    intro table hrows
    rw [tables_withArray] at hrows
    by_cases hchild : table = st.snowflake.tableName path
    · exact ⟨path, .inr (mem_nested_withTable.2 (.inl rfl)), hchild⟩
    · by_cases hparent : table = st.snowflake.tableName (st.snowflake.nestedPathOf path)
      · refine ⟨_, (isHome_nestedPathOf h.toArraysOrdered path).known.imp_right fun hn => ?_,
          hparent⟩
        exact mem_nested_withTable.2 (.inr hn)
      · simp only [apply, if_neg hchild, if_neg hparent] at hrows
        obtain ⟨n, hn, heq⟩ := h.known table hrows
        exact ⟨n, hn.imp_right fun hn => mem_nested_withTable.2 (.inr hn), heq⟩
  closed := h.closed_withArray
  used := by
    intro n r hr
    rw [nextOf_withArray]
    by_cases hn : n = path
    · rw [hn] at hr
      rw [if_pos hn]
      obtain ⟨p, hp, _, rfl⟩ := (h.mem_items).1 hr
      exact h.used _ p hp
    · rw [if_neg hn]
      obtain ⟨f, hrows, hkept, _⟩ := h.rowsAt_withArray hn
      rw [hrows] at hr
      obtain ⟨q, hq, rfl⟩ := mem_map.1 hr
      rw [(hkept q).1]
      exact h.used n q hq
  filled := fun _ _ hr _ hcolumn hnone => h.filled_withArray hr hcolumn hnone

end Moving

end Stored

end Snowbank
