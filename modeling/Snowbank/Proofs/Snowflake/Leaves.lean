import Mathlib.Algebra.BigOperators.Group.Finset.Piecewise
import Mathlib.Algebra.GroupWithZero.Nat
import Snowbank.Proofs.Snowflake.WellFormed

/-!
# Every Leaf Is Stored

The values of documents that are neither null nor made of other values are
stored in cells of their own. They are counted three times: in the documents,
among the entries that documents are taken apart into, and in the batches.
Between documents and entries nothing is lost because every array that is not
empty has a table. Between entries and batches nothing is lost because the
entries of a row have different columns.

A key that ends in a backslash, or that is empty, is not read back from a
path, and two leaves of a document may then have one column.

## Main definitions

* `leafCount`: The number of leaves of a value.
* `Batch.values`: The number of cells of a batch that hold a value.

## Theorems

* `leaves_stored`: There are as many cells with values as leaves.
-/

namespace Snowbank

open List Json Snowflake Entry DataType Ordered

variable {base : Cells} {uid : Int} {entries : List Entry} {home path : Path} {s : Snowflake}

namespace Json

mutual

/-- The number of values that are neither null nor made of other values. -/
def leafCount : Json → Nat
  | .null => 0
  | .obj fields => leafCountOfFields fields
  | .arr items => leafCountOfItems items
  | _ => 1

def leafCountOfFields : List (String × Json) → Nat
  | [] => 0
  | (_, value) :: rest => leafCount value + leafCountOfFields rest

def leafCountOfItems : List Json → Nat
  | [] => 0
  | item :: rest => leafCount item + leafCountOfItems rest

end

mutual

/-- No array is an item of an array. -/
def flat : Json → Bool
  | .obj fields => flatFields fields
  | .arr items => !items.any isArr && flatItems items
  | _ => true

def flatFields : List (String × Json) → Bool
  | [] => true
  | (_, value) :: rest => flat value && flatFields rest

def flatItems : List Json → Bool
  | [] => true
  | item :: rest => flat item && flatItems rest

end

theorem leafCountOfItems_eq_zero {items : List Json} (h : items.any (!·.isNull) = false) :
    leafCountOfItems items = 0 := by
  induction items with
  | nil => rfl
  | cons item rest ih =>
    rw [any_cons, Bool.or_eq_false_iff] at h
    cases item with
    | null => rw [leafCountOfItems, leafCount, ih h.2]
    | _ => exact Bool.noConfusion h.1

end Json

/-- The column holds values: it is not one that every row has, and it does not
    count the rows of an array. -/
def isValueColumn (column : String) : Bool := !reservedNames.contains column &&
    !(['.', '$', presence.tag].isSuffixOf column.toList)

/-- The number of cells of a batch that hold a value. -/
def Batch.values (b : Batch) : Nat := (b.rows.map fun values =>
    (b.columns.zip values).countP fun cell => isValueColumn cell.1 && !cell.2.isNull).sum

/-- The number of columns in which a row has a value. -/
def Cells.values (columns : List String) (r : Cells) : Nat :=
  columns.countP fun column => isValueColumn column && !(r column).isNull

theorem isValueColumn_typed (path : Path) (type : DataType) :
    isValueColumn (path.typed type) = (type.storage != .presence) := by
  have hreserved := Path.typed_not_reserved path type
  have hsuffix : ['.', '$', presence.tag].isSuffixOf (path.typed type).toList =
      (type.storage == .presence) := by
    rw [Bool.eq_iff_iff, isSuffixOf_iff_suffix, Path.toList_typed, beq_iff_eq]
    constructor
    · rintro ⟨front, heq⟩
      have htag := append_inj_right' heq rfl
      revert htag
      cases type <;> decide
    · intro h
      rw [h]
      exact suffix_append _ _
  rw [isValueColumn, hsuffix, contains_eq_mem, decide_eq_false hreserved]
  rfl

namespace Entry

mutual

/-- The number of entries that are values, with those in the rows of arrays. -/
def valuesIn : List Entry → Nat
  | [] => 0
  | .cell _ _ _ :: rest => valuesIn rest + 1
  | .rows _ items :: rest => valuesInItems items + valuesIn rest

def valuesInItems : List (List Entry) → Nat
  | [] => 0
  | item :: rest => valuesIn item + valuesInItems rest

end

theorem valuesIn_append (as bs : List Entry) : valuesIn (as ++ bs) = valuesIn as + valuesIn bs := by
  induction as with
  | nil => rw [nil_append, valuesIn, Nat.zero_add]
  | cons e rest ih =>
    cases e <;> rw [cons_append, valuesIn, valuesIn, ih]
    · omega
    · omega

theorem valuesIn_scalar (path : Path) {value : Json} (hnull : value ≠ .null)
    (hobj : ∀ fields, value ≠ .obj fields) (harr : ∀ items, value ≠ .arr items) :
    valuesIn (scalar path value) = value.leafCount := by
  cases value with
  | null => exact absurd rfl hnull
  | obj fields => exact absurd rfl (hobj fields)
  | arr items => exact absurd rfl (harr items)
  | _ => simp [scalar, valuesIn, leafCount]

theorem child_ne_of_isUnder {key : String} (hpath : path.Clean)
    (hkey : Path.CleanKey key) (hunder : path.isUnder home) :
    path.append (Path.escapeKey key) ≠ home := by
  intro heq
  have hle := Path.depth_le_of_isUnder hunder
  rw [← heq, Path.depth, Path.depth, hpath.keys_child hkey, length_append, length_singleton] at hle
  omega

/-- Every leaf of a document is an entry, where the arrays that the document needs are there. -/
theorem valuesIn_ofJson (isNested : Path → Bool) (home path : Path) (value : Json)
    (hpath : path.Clean) (hunder : path.isUnder home)
    (hhome : path = home → value.isArr = false) (hvalue : value.Tidy) (hflat : value.flat)
    (harrays : ∀ p ∈ arrays path value, isNested p) :
    valuesIn (ofJson isNested home path value) = value.leafCount := by
  induction home, path, value using ofJson.induct isNested _
      (fun path items => path.Clean → Json.TidyItems items → flatItems items →
        items.any isArr = false →
        (∀ p ∈ arraysInItems path items, isNested p) →
        valuesInItems (ofItems isNested path items) = leafCountOfItems items)
      (fun home path fields => path.Clean → path.isUnder home → Json.TidyFields fields →
        flatFields fields →
        (∀ p ∈ arraysInFields path fields, isNested p) →
        valuesIn (ofFields isNested home path fields) = leafCountOfFields fields) with
  | case1 home path => rw [ofJson, leafCount, valuesIn]
  | case2 home path fields hcond ih =>
    rw [ofJson, if_pos hcond, valuesIn, valuesInItems, valuesInItems, valuesIn, leafCount,
      ih hpath (Path.isUnder_refl _) hvalue.2 hflat harrays, Nat.add_zero]
  | case3 home path fields hcond ih =>
    rw [ofJson, if_neg hcond, leafCount, ih hpath hunder hvalue.2 hflat harrays]
  | case4 home path items hnone =>
    rw [ofJson, if_pos hnone, leafCount, leafCountOfItems_eq_zero (by simpa using hnone), valuesIn]
  | case5 home path items hsome hcond ih =>
    rw [Json.flat, Bool.and_eq_true, Bool.not_eq_true'] at hflat
    have hneeds : needsTable items := by
      rw [needsTable, hflat.1]
      simpa using hsome
    rw [arrays, if_pos hneeds] at harrays
    rw [ofJson, if_neg hsome, if_pos hcond, valuesIn, valuesIn, Nat.add_zero]
    exact ih hpath hvalue hflat.2 hflat.1 fun p hp => harrays p (.tail _ hp)
  | case6 home path items hsome hcond =>
    -- the array has a table, and the path is not that of the row
    rw [Json.flat, Bool.and_eq_true, Bool.not_eq_true'] at hflat
    have hneeds : needsTable items := by
      rw [needsTable, hflat.1]
      simpa using hsome
    rw [arrays, if_pos hneeds] at harrays
    have hne : path ≠ home := fun heq => Bool.noConfusion (hhome heq)
    exact absurd (by rw [bne_iff_ne.2 hne, harrays path mem_cons_self]; rfl) hcond
  | case7 home path value hnull hobj harr hcond =>
    rw [ofJson.eq_4 _ _ _ _ hnull hobj harr, if_pos hcond, valuesIn, valuesInItems, valuesInItems,
      valuesIn, Nat.add_zero, valuesIn_scalar path hnull hobj harr]
  | case8 home path value hnull hobj harr hcond =>
    rw [ofJson.eq_4 _ _ _ _ hnull hobj harr, if_neg hcond, valuesIn_scalar path hnull hobj harr]
  | case9 path => rw [ofItems, valuesInItems, leafCountOfItems]
  | case10 path rest ih hpath hitems hflat hnone harrays =>
    rw [Json.TidyItems] at hitems
    rw [ofItems, leafCountOfItems, leafCount, Nat.zero_add]
    exact ih hpath hitems.2 hflat hnone harrays
  | case11 path fields rest ihfields ih hpath hitems hflat hnone harrays =>
    rw [Json.TidyItems, Json.Tidy] at hitems
    rw [flatItems, Bool.and_eq_true, Json.flat] at hflat
    rw [arraysInItems, forall_mem_append] at harrays
    rw [ofItems, valuesInItems, leafCountOfItems, leafCount,
      ihfields hpath (Path.isUnder_refl _) hitems.1.2 hflat.1 harrays.1,
      ih hpath hitems.2 hflat.2 hnone harrays.2]
  | case12 path items rest _ _ _ _ hnone => cases hnone
  | case13 path value rest hnull hobj harr ih hpath hitems hflat hnone harrays =>
    rw [Json.TidyItems] at hitems
    rw [flatItems, Bool.and_eq_true] at hflat
    rw [any_cons, Bool.or_eq_false_iff] at hnone
    rw [arraysInItems.eq_3 _ _ _ hobj] at harrays
    rw [ofItems.eq_5 _ _ _ _ hnull hobj harr, valuesInItems, leafCountOfItems,
      valuesIn_scalar path hnull hobj harr, ih hpath hitems.2 hflat.2 hnone.2 harrays]
  | case14 home path => rw [ofFields, valuesIn, leafCountOfFields]
  | case15 home path key value rest ihvalue ih hpath hunder hfields hflat harrays =>
    rw [Json.TidyFields] at hfields
    obtain ⟨hkey, hvalue, hrest⟩ := hfields
    rw [flatFields, Bool.and_eq_true] at hflat
    rw [arraysInFields, forall_mem_append] at harrays
    have hchild := Path.isUnder_trans (isUnder_child hpath hkey) hunder
    have hne := child_ne_of_isUnder hpath hkey hunder
    rw [ofFields, valuesIn_append, leafCountOfFields, ih hpath hunder hrest hflat.2 harrays.2,
      ihvalue (hpath.child hkey) hchild (fun heq => absurd heq hne) hvalue hflat.1 harrays.1]

/-- The entry is a value. -/
def isCell : Entry → Bool
  | cell _ _ _ => true
  | rows _ _ => false

/-- Every entry of a row that is a value has its own cell. -/
theorem FitRow.values (hs : s.ArraysOrdered) {entries : List Entry}
    (h : FitRow s home entries) (hbase : Node.Begins uid base)
    {columns : List String} (hnodup : columns.Nodup)
    (hcovers : ∀ c, (entries.foldl (write s) base c).isNull = false → c ∈ columns) :
    (entries.foldl (write s) base).values columns = (entries.filter isCell).length := by
  have hvalue : ∀ e ∈ entries, isValueColumn (e.column s) = e.isCell := by
    intro e he
    rw [column, columnName, isValueColumn_typed]
    cases h.fit e he with
    | cell canonical inside stored present =>
      refine bne_iff_ne.2 fun heq => ?_
      rw [storage_label] at heq
      rw [show storage _ = presence from heq] at stored
      cases stored
    | rows known inside => rfl
  have hdistinct : ((entries.filter isCell).map (column s)).Nodup := by
    refine Nodup.map_on (fun d hd e he heq => ?_) (h.apart.of_map.filter _)
    have hlabel := (h.fit d (mem_of_mem_filter hd)).label_eq hs (h.fit e (mem_of_mem_filter he)) heq
    refine inj_on_of_nodup_map h.apart (mem_of_mem_filter hd) (mem_of_mem_filter he) ?_
    rw [← path_eq_label, ← path_eq_label, hlabel]
  rw [Cells.values, countP_eq_length_filter]
  refine ((perm_ext_iff_of_nodup (hnodup.filter _) hdistinct).2 fun c => ?_).length_eq.trans
    (length_map _)
  rw [mem_filter, Bool.and_eq_true, Bool.not_eq_true', mem_map]
  constructor
  · rintro ⟨_, hcolumn, hsome⟩
    -- a value that is not of the row's beginning is that of an entry
    by_cases hnone : ∀ e ∈ entries, e.column s ≠ c
    · have hblank : c ∉ reservedNames := fun hmem => by
        rw [isValueColumn, contains_eq_mem, decide_eq_true hmem] at hcolumn
        cases hcolumn
      rw [foldl_write_of_ne hnone, hbase.blank c hblank] at hsome
      cases hsome
    · simp only [not_forall, ne_eq, not_not] at hnone
      obtain ⟨e, he, rfl⟩ := hnone
      exact ⟨e, mem_filter.2 ⟨he, hvalue e he ▸ hcolumn⟩, rfl⟩
  · rintro ⟨e, he, rfl⟩
    obtain ⟨he, hcell⟩ := mem_filter.1 he
    have hsome : (entries.foldl (write s) base (e.column s)).isNull = false := by
      rw [h.foldl_write hs he]
      cases h.fit e he with
      | cell canonical inside stored present => exact present
      | rows known inside => cases hcell
    exact ⟨hcovers _ hsome, hvalue e he ▸ hcell, hsome⟩

end Entry

namespace Node

section

variable {s : Snowflake} (homes : Finset Path) (columns : Path → List String)

/-- The number of values in the rows of trees. -/
def values (forest : List Node) : Nat :=
  ∑ n ∈ homes, ((rowsOf forest n).map (Cells.values (columns n))).sum

/-- Every row has its values in the columns of its table. -/
def Covered (forest : List Node) : Prop :=
  ∀ n, ∀ r ∈ rowsOf forest n, ∀ c, (r c).isNull = false → c ∈ columns n

theorem values_append (as bs : List Node) :
    values homes columns (as ++ bs) = values homes columns as + values homes columns bs := by
  simp [values, rowsOf_append, Finset.sum_add_distrib]

variable {homes columns}

theorem covered_append {as bs : List Node} (h : Covered columns (as ++ bs)) :
    Covered columns as ∧ Covered columns bs := by
  simp only [Covered, rowsOf_append, forall_mem_append] at h
  exact ⟨fun n => (h n).1, fun n => (h n).2⟩

variable (hs : s.ArraysOrdered) (hhomes : ∀ n, n ∈ homes ↔ n = .root ∨ n ∈ s.nested)
  (hnodup : ∀ n, (columns n).Nodup)

include hs hhomes hnodup

theorem values_mk {base : Cells} {children : List Node} (hpath : path = .root ∨ path ∈ s.nested)
    (hfit : Entry.FitRow s path entries) (hbase : Begins uid base)
    (hcovered : Covered columns [.mk path (entries.foldl (write s) base) children]) :
    values homes columns [.mk path (entries.foldl (write s) base) children] =
      values homes columns children + (entries.filter isCell).length := by
  have hrow :=
    hfit.values hs hbase (hnodup path) (hcovered path _ (mem_rowsOf_mk.2 (.inr ⟨rfl, rfl⟩)))
  have hsum : ∀ n, ((if path = n then [entries.foldl (write s) base] else []).map
      (Cells.values (columns n))).sum = if path = n then (entries.filter isCell).length else 0 := by
    intro n
    split
    next hn => rw [← hn, map_singleton, sum_singleton, hrow]
    · rfl
  simp only [values, rowsOf_mk, map_append, sum_append, hsum, Finset.sum_add_distrib]
  rw [Finset.sum_ite_eq, if_pos ((hhomes path).2 hpath)]

/-- The rows that hang on a row have a value for every entry in the rows of its arrays. -/
theorem values_ofEntries (entries : List Entry) (next : Counters) (uid : Int)
    (hfit : Entry.FitRow s home entries)
    (hcovered : Covered columns (ofEntries s next uid entries).1) :
    values homes columns (ofEntries s next uid entries).1 + (entries.filter isCell).length =
      valuesIn entries := by
  induction next, uid, entries using ofEntries.induct s _
      (fun next parent path order items => path ∈ s.nested →
        (∀ item ∈ items, Entry.FitRow s path item) →
        Covered columns (ofItems s next parent path order items).1 →
        values homes columns (ofItems s next parent path order items).1 =
          valuesInItems items) generalizing home with
  | case1 next uid =>
    rw [ofEntries, valuesIn]
    exact Finset.sum_const_zero
  | case2 next uid path type value rest ih =>
    rw [ofEntries] at hcovered ⊢
    rw [filter_cons_of_pos rfl, length_cons, valuesIn, ← ih hfit.tail hcovered, Nat.add_assoc]
  -- an array has no cell of its own here, and its rows are counted apart
  | case3 next uid path items rest made ihitems =>
    rename_i ih
    have hrows := hfit.fit _ mem_cons_self
    have hknown : path ∈ s.nested := by
      cases hrows with
      | rows known => exact known
    rw [ofEntries] at hcovered ⊢
    obtain ⟨hmade, hmore⟩ := covered_append hcovered
    rw [filter_cons_of_neg Bool.false_ne_true, valuesIn, values_append,
      ihitems hknown hrows.items hmade, Nat.add_assoc, ih hfit.tail hmore]
  | case4 next parent path order =>
    rw [ofItems, valuesInItems]
    exact Finset.sum_const_zero
  | case5 next parent path order item rest below ihitem ih hknown hfit hcovered =>
    have hitem := hfit item mem_cons_self
    rw [ofItems, ← singleton_append] at hcovered ⊢
    obtain ⟨hfirst, hmore⟩ := covered_append hcovered
    have hbelow : Covered columns below.1 := fun n r hr => hfirst n r (mem_rowsOf_mk.2 (.inl hr))
    rw [values_append, values_mk hs hhomes hnodup (.inr hknown) hitem
      (begins_itemCells _ _ _) hfirst,
      ihitem hitem hbelow, valuesInItems,
      ih hknown (fun other hother => hfit other (.tail _ hother)) hmore]

theorem values_documents (docs : List (String × Json))
    (hdocs : ∀ doc ∈ docs, doc.2.Document ∧ doc.2.flat)
    (harrays : ∀ p ∈ arraysOf (docs.map Prod.snd), p ∈ s.nested) (next : Counters)
    (hcovered : Covered columns (ofDocuments s next docs).1) :
    values homes columns (ofDocuments s next docs).1 =
    (docs.map fun doc => doc.2.leafCount).sum := by
  induction docs generalizing next with
  | nil => exact Finset.sum_const_zero
  | cons doc rest ih =>
    obtain ⟨guid, doc⟩ := doc
    obtain ⟨⟨hobj, htidy⟩, hflat⟩ := hdocs _ mem_cons_self
    rw [arraysOf, map_cons, flatMap_cons, forall_mem_append] at harrays
    have hfit := fitRow_document hs htidy
    rw [ofDocuments, ← singleton_append] at hcovered ⊢
    obtain ⟨hfirst, hmore⟩ := covered_append hcovered
    have hleaves := valuesIn_ofJson s.isNested .root .root doc Path.clean_root
      (Path.isUnder_refl _) (fun _ => by cases doc <;> first | rfl | exact Bool.noConfusion hobj)
      htidy hflat fun p hp => isNested_iff.2 (harrays.1 p hp)
    rw [values_append, values_mk hs hhomes hnodup (.inl rfl) hfit (begins_documentCells _ _) hfirst,
      values_ofEntries hs hhomes hnodup _ _ _ hfit fun n r hr =>
        hfirst n r (mem_rowsOf_mk.2 (.inl hr)), hleaves,
      ih (fun d hd => hdocs d (.tail _ hd)) harrays.2 _ hmore, map_cons,
      sum_cons]

end

end Node

namespace Snowflake

theorem nodup_columns_batch (s : Snowflake) (table : String) (rows : List Row) :
    (s.batch table rows).columns.Nodup := by
  refine nodup_append.2 ⟨?_, (increasing_elems _).nodup, fun a ha b hb heq => ?_⟩
  · unfold reservedColumns
    split <;> decide
  · have hother := (mem_filter.1 (mem_elems.1 hb)).2
    rw [← heq, contains_eq_mem, decide_eq_true ha] at hother
    cases hother

theorem values_batch (s : Snowflake) (table : String) (rows : List Row) :
    (s.batch table rows).values =
      ((rows.map Cells.ofRow).map (Cells.values (s.batch table rows).columns)).sum := by
  have hzip : ∀ (columns : List String) (r : Cells),
      (columns.zip (columns.map r)).countP (fun cell => isValueColumn cell.1 && !cell.2.isNull) =
        r.values columns := by
    intro columns r
    rw [Cells.values]
    induction columns with
    | nil => rfl
    | cons c rest ih => rw [map_cons, zip_cons_cons, countP_cons, countP_cons, ih]
  rw [map_map]
  refine congrArg List.sum ?_
  rw [batch, map_map]
  exact map_congr_left fun row _ => hzip _ (Cells.ofRow row)

/-- The rows made for an array. -/
def madeFor (s : Snowflake) (rows : List (String × List Row)) (n : Path) : List Row :=
  (get? (s.tableName n) rows).getD []

/-- The columns that the batch for an array has. -/
def columnsFor (s : Snowflake) (rows : List (String × List Row)) (n : Path) : List String :=
  (s.batch (s.tableName n) (s.madeFor rows n)).columns

theorem values_batches (hs : s.ArraysOrdered) (rows : List (String × List Row)) :
    ((s.batches rows).map Batch.values).sum = ∑ n ∈ (.root :: s.nestedPaths).toFinset,
      (((s.madeFor rows n).map Cells.ofRow).map (Cells.values (s.columnsFor rows n))).sum := by
  have hnodup : ((.root :: s.nestedPaths).map s.tableName).Nodup := nodup_tables hs
  rw [sum_toFinset _ hnodup.of_map]
  change ((((.root :: s.nestedPaths).map s.tableName).filterMap _).map _).sum = _
  induction .root :: s.nestedPaths with
  | nil => rfl
  | cons n rest ih =>
    rw [map_cons, map_cons, sum_cons, ← ih, columnsFor, madeFor]
    cases hrows : get? (s.tableName n) rows with
    | none =>
      rw [filterMap_cons_none (by rw [hrows]; rfl)]
      exact (Nat.zero_add _).symm
    | some found =>
      rw [filterMap_cons_some (by rw [hrows]; rfl), map_cons, sum_cons, values_batch]
      rfl

/-- Storing documents in an empty collection stores every leaf: there are as many cells with values
    as the documents have leaves, so no two leaves of a document share a cell. -/
theorem leaves_stored (fact : String) {docs : List (String × Json)}
    (hdocs : ∀ doc ∈ docs, doc.2.Document ∧ doc.2.flat = true) :
    ∃ shredded, ((empty fact).shred docs).1 = .ok shredded ∧
      (shredded.batches.map Batch.values).sum = (docs.map fun doc => doc.2.leafCount).sum := by
  rcases (Stored.sound_empty fact).demanded (empty fact).clock fun doc hdoc =>
    (hdocs doc hdoc).1 with
    ⟨changes, grown, hnested, hsound, harrays⟩
  have hs : grown.ArraysOrdered := hsound.laid.toArraysOrdered
  refine ⟨_, congrArg Prod.fst (shred_eq hnested rfl), ?_⟩
  have hplanted := (Shredding.planted_documents hs docs (fun doc hdoc => (hdocs doc hdoc).1.2)
    ⟨grown, changes, []⟩ ⟨hsound.laid, rfl, rfl⟩).1
  generalize docs.foldl _ (⟨grown, changes, []⟩ : Shredding) = made at hplanted
  -- the rows that are made are those of the trees
  have hrows : ∀ n, (made.snowflake.madeFor made.rows n).map Cells.ofRow =
      Node.rowsOf (Node.ofDocuments grown grown.nextOf docs).1 n := by
    intro n
    rw [madeFor, hplanted.arrays.tableName]
    exact hplanted.rows n
  have hhomes : ∀ n, n ∈ (Path.root :: made.snowflake.nestedPaths).toFinset ↔
      n = Path.root ∨ n ∈ grown.nested := by
    intro n
    rw [List.mem_toFinset, List.mem_cons, nestedPaths, (Ordered.perm_sortBy _).mem_iff,
      hplanted.arrays.nested]
  simp only [values_batches hplanted.arrays.laid.toArraysOrdered, hrows]
  refine Node.values_documents hs hhomes (fun n => nodup_columns_batch _ _ _) docs hdocs
    (fun p hp => (harrays p).mpr (Or.inr hp)) grown.nextOf fun n r hr c hsome => ?_
  rw [← hrows] at hr
  rcases List.mem_map.mp hr with ⟨row, hrow, rfl⟩
  -- a cell with a value is in a column of its batch
  cases hvalue : Ordered.get? c row with
  | none =>
    rw [Cells.ofRow, hvalue] at hsome
    exact Bool.noConfusion hsome
  | some value => exact mem_columns_batch hrow hvalue

/-- Documents with dots, dollars and backslashes in their keys, and one value
    where others have an array. -/
def escaped : List (String × Json) :=
  [("x", .obj [("$n", .nat 1), ("a", .obj [("b", .nat 2)]), ("a.b", .nat 3),
      ("a\\.b", .arr [.obj [("c", .str "d")], .null, .nat 4])]),
    ("y", .obj [("a", .obj [("$n", .null), ("b", .str "e")]), ("a\\.b", .bool true)])]

theorem leaves_stored_escaped :
    (∀ doc ∈ escaped, doc.2.Document ∧ doc.2.flat = true) ∧
      ∃ shredded, ((empty "t").shred escaped).1 = .ok shredded ∧
        (shredded.batches.map Batch.values).sum = 7 := by
  have hdocs : ∀ doc ∈ escaped, doc.2.Document ∧ doc.2.flat = true := by
    decide +kernel
  exact ⟨hdocs, leaves_stored "t" hdocs⟩

end Snowflake

end Snowbank
