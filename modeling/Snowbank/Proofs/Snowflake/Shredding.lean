import Snowbank.Proofs.Snowflake.Reach

/-!
# Documents Become Rows

Storing documents makes the rows of their trees. The catalog may get columns
on the way, but no array, so the names of columns and tables stay as they are;
and a row is finished after the rows that hang on it, which is the order in
which a tree lists its nodes.

## Main definitions

* `SameArrays`: A catalog has the arrays of another one.
* `Planted`: The rows of trees have been made.
* `grow`: The catalog after something has been asked of it.

## Theorems

* `planted_documents`: Storing documents makes the rows of their trees.
* `Laid.grow_keeps`: What every step keeps is kept, whatever is asked.
-/

namespace Snowbank

open List Cells Node Snowflake Ordered Shredding DataType

variable {type : DataType} {path : Path} {row : Row} {t s' : Snowflake}
variable {type : DataType}

namespace Snowflake

/-- A catalog has the arrays of another one. -/
structure SameArrays (s s' : Snowflake) : Prop where
  laid : s'.Laid
  fact : s'.fact = s.fact
  nested : s'.nested = s.nested

section

variable {s s' : Snowflake} (h : s.SameArrays s')

include h

theorem SameArrays.tableName (n : Path) : s'.tableName n = s.tableName n := by
  rw [Snowflake.tableName, Snowflake.tableName, h.fact]

theorem SameArrays.homeOf (path : Path) (type : DataType) :
    s'.homeOf path type = s.homeOf path type := by
  cases type <;>
    simp [Snowflake.homeOf, nestedPathOf, parentNestedPath, nestedPathList, h.nested]

theorem SameArrays.columnName (path : Path) (type : DataType) :
    s'.columnName path type = s.columnName path type := by
  rw [Snowflake.columnName, Snowflake.columnName, h.homeOf]

theorem SameArrays.isNested : s'.isNested = s.isNested := by
  funext path
  rw [Snowflake.isNested, Snowflake.isNested, h.nested]

theorem SameArrays.of_sameLayout (hsame : SameLayout s' t) : s.SameArrays t :=
  ⟨h.laid.of_sameLayout hsame, hsame.fact.trans h.fact, hsame.nested.trans h.nested⟩

end

theorem Holds.mono {s : Snowflake} (hs : s.SameArrays s') (ht : s.SameArrays t)
    (hlabels : ∀ label ∈ s'.labels, label ∈ t.labels) {n : Path} {r : Cells} (h : s'.Holds n r) :
    t.Holds n r := by
  intro column hcolumn hnone
  refine h column hcolumn ?_
  rintro ⟨path, type, hlabel, htype, rfl, rfl⟩
  refine hnone ⟨path, type, hlabels _ hlabel, htype, ?_, ?_⟩
  · rw [ht.homeOf, hs.homeOf]
  · rw [ht.columnName, hs.columnName]

section

variable {s s' : Snowflake}

theorem labels_ensureColumn (s : Snowflake) (path : Path) (type : DataType) :
    (path, type) ∈ (s.ensureColumn path type).2.2.labels ∧
      ∀ label ∈ s.labels, label ∈ (s.ensureColumn path type).2.2.labels := by
  by_cases hlabel : (path, type) ∈ s.labels
  · unfold ensureColumn
    split
    · exact ⟨hlabel, fun _ h => h⟩
    next hnone => exact absurd hlabel (find?_eq_none_iff.1 hnone)
  · rw [ensureColumn_of_new hlabel, labels_push]
    exact ⟨mem_append_right _ (mem_singleton.2 rfl), fun _ h => mem_append_left _ h⟩

/-- A column that is asked for has the name that the arrays give it. -/
theorem Laid.physical_ensureColumn (hs : s.Laid)
    (htype : type ≠ .nested) (houtside : type.isOutside → path ∈ s.nested) :
    (s.ensureColumn path type).1.physical = s.columnName path type := by
  have hname : ∀ home, s.physicalName path type home = (path.relativeTo home).typed type :=
    fun home => (physicalName_eq s path type home).trans (if_neg htype)
  unfold Snowflake.ensureColumn
  split
  next c hfound =>
    obtain ⟨hc, rfl, rfl⟩ := of_find? hfound
    rw [(hs.stands c hc).physical, hname]
    rfl
  · refine (stands_place hs.toArraysOrdered fun hout => ?_).physical.trans (hname _)
    exact fun hroot => hs.not_root (hroot ▸ houtside hout)

theorem changes_ensureColumn (s : Snowflake) (path : Path) (type : DataType) :
    ∀ c ∈ (s.ensureColumn path type).2.1, ∃ table column type, c = .add table column type := by
  unfold ensureColumn
  split
  · exact forall_mem_nil _
  · intro c hc
    exact ⟨_, _, _, mem_singleton.1 hc⟩

theorem nextOf_takeUid (s : Snowflake) (path : Path) :
    (s.takeUid (s.tableName path)).1 = s.nextOf path ∧
      (s.takeUid (s.tableName path)).2.nextOf = Counters.bump s.nextOf path := by
  refine ⟨rfl, ?_⟩
  funext n
  change (get? (s.tableName n) (insert (s.tableName path) _ s.nextUid)).getD 1 = _
  rw [get?_insert, Counters.bump]
  by_cases hn : n = path
  · rw [if_pos hn, if_pos (congrArg _ hn), hn]
    rfl
  · rw [if_neg hn, if_neg fun heq => hn (tableName_inj heq)]
    rfl

end

end Snowflake

namespace Shredding

/-- The rows made for an array. -/
def rowsAt (s : Snowflake) (st : Shredding) (n : Path) : List Cells :=
  ((get? (s.tableName n) st.rows).getD []).map ofRow

/-- The rows of trees have been made. For that columns may have been added,
    and the rows have values in these and in those that were there. -/
structure Planted (s : Snowflake) (st st' : Shredding) (forest : List Node) : Prop where
  arrays : s.SameArrays st'.snowflake
  rows : ∀ n, st'.rowsAt s n = st.rowsAt s n ++ rowsOf forest n
  changes : ∃ added, st'.changes = st.changes ++ added ∧
    ∀ c ∈ added, ∃ table column type, c = .add table column type
  labels : ∀ label ∈ st.snowflake.labels, label ∈ st'.snowflake.labels
  holds : ∀ n, ∀ r ∈ rowsOf forest n, st'.snowflake.Holds n r

section

variable {s : Snowflake} {st st' st'' : Shredding}

theorem planted_nil (h : s.SameArrays st.snowflake) : Planted s st st [] where
  arrays := h
  rows := fun _ => (append_nil _).symm
  changes := ⟨[], (append_nil _).symm, forall_mem_nil _⟩
  labels := fun _ h => h
  holds := fun _ _ h => absurd h not_mem_nil

theorem Planted.append {as bs : List Node} (h : Planted s st st' as)
    (hmore : Planted s st' st'' bs) :
    Planted s st st'' (as ++ bs) where
  arrays := hmore.arrays
  rows := by
    intro n
    rw [hmore.rows, h.rows, rowsOf_append, append_assoc]
  changes := by
    obtain ⟨added, heq, hadded⟩ := h.changes
    obtain ⟨others, heq', hothers⟩ := hmore.changes
    refine ⟨added ++ others, by rw [heq', heq, append_assoc], fun c hc => ?_⟩
    exact (mem_append.1 hc).elim (hadded c) (hothers c)
  labels := fun label hlabel => hmore.labels label (h.labels label hlabel)
  holds := by
    intro n r hr
    rw [rowsOf_append] at hr
    rcases mem_append.1 hr with hr | hr
    · exact (h.holds n r hr).mono h.arrays hmore.arrays hmore.labels
    · exact hmore.holds n r hr

theorem planted_of_sameLayout (h : s.SameArrays st.snowflake)
    (hsame : Snowflake.SameLayout st.snowflake s') :
    Planted s st { st with snowflake := s' } [] where
  arrays := h.of_sameLayout hsame
  rows := fun _ => (append_nil _).symm
  changes := ⟨[], (append_nil _).symm, forall_mem_nil _⟩
  labels := fun _ h => hsame.labels.symm ▸ h
  holds := fun _ _ h => absurd h not_mem_nil

/-- A value goes into the column that the arrays give it. -/
theorem planted_store (h : s.SameArrays st.snowflake)
    (hpath : path.Canonical) (htype : type.storage ≠ .nested)
    (houtside : type.storage.isOutside → path ∈ s.nested) {row' : Row} {value : Json}
    (hstore : st.store row path type value = (st', row')) :
    Planted s st st' [] ∧ st'.snowflake.nextOf = st.snowflake.nextOf ∧
      (path, type.storage) ∈ st'.snowflake.labels ∧
      ofRow row' = fun column =>
        if column = s.columnName path type.storage then value else ofRow row column := by
  have houtside' : type.storage.isOutside → path ∈ st.snowflake.nested := fun hout =>
    h.nested.symm ▸ houtside hout
  obtain ⟨hlabel, hlabels⟩ := labels_ensureColumn st.snowflake path type.storage
  obtain ⟨hnested, hnext⟩ := nested_ensureColumn st.snowflake path type.storage
  have hfact := fact_ensureColumn st.snowflake path type.storage
  have hname := h.laid.physical_ensureColumn htype houtside'
  unfold store at hstore
  dsimp only at hstore
  obtain ⟨rfl, rfl⟩ := Prod.mk.inj hstore
  refine ⟨⟨⟨?_, hfact.trans h.fact, hnested.trans h.nested⟩,
    fun _ => (append_nil _).symm, ⟨_, rfl, changes_ensureColumn _ _ _⟩, hlabels,
    fun _ _ hr => absurd hr not_mem_nil⟩, ?_, hlabel, ?_⟩
  · exact h.laid.ensureColumn hpath type.storage_storage houtside'
  · funext n
    rw [nextOf, nextOf, tableName, tableName]
    rw [hnext, hfact]
  · funext column
    rw [ofRow, get?_insert, hname, h.columnName]
    split <;> rfl

theorem planted_push (path : Path) {children : List Node}
    (hbelow : Planted s st st' children) (hholds : st'.snowflake.Holds path (.ofRow row)) :
    Planted s st (st'.push (s.tableName path) row) [.mk path (.ofRow row) children] := by
  refine ⟨hbelow.arrays, fun n => ?_, hbelow.changes, hbelow.labels, fun n r hr => ?_⟩
  · rw [rowsOf_mk, ← append_assoc, ← hbelow.rows, rowsAt, push, update, get?_insert]
    by_cases hn : path = n
    · rw [if_pos (congrArg _ hn.symm), if_pos hn, hn]
      exact map_append
    · rw [if_neg fun heq => hn (tableName_inj heq).symm, if_neg hn, append_nil]
      rfl
  · rw [rowsOf_mk] at hr
    rcases mem_append.1 hr with hr | hr
    · exact hbelow.holds n r hr
    · split at hr
      next hn =>
        rw [← hn, mem_singleton.1 hr]
        exact hholds
      · cases hr

end

section

variable {s : Snowflake}

/-- A row that is written from entries has values in the columns that these have got. -/
theorem holds_foldl_write (h : s.SameArrays s') {entries : List Entry}
    (hfit : ∀ e ∈ entries, Entry.Fits s path e) (hlabels : ∀ e ∈ entries, e.label ∈ s'.labels)
    {base : Cells} (hblank : ∀ column, column ∉ reservedNames → base column = .null) :
    s'.Holds path (entries.foldl (Entry.write s) base) := by
  intro column hcolumn hnone
  refine (Entry.foldl_write_of_ne (fun e he heq => hnone ?_) base).trans (hblank column hcolumn)
  refine ⟨e.label.1, e.label.2, hlabels e he, ?_, ?_, ?_⟩
  · cases hfit e he with
    | cell canonical inside stored =>
      intro htype
      change storage _ = _ at htype
      rw [htype] at stored
      cases stored
    | rows => exact fun htype => noConfusion htype
  · rw [h.homeOf]
    exact (hfit e he).home_label
  · rw [h.columnName]
    exact heq

/-- Storing what a row holds writes the row and makes the trees that hang on it. -/
theorem planted_entries (hs : s.ArraysOrdered) (st : Shredding) (uid : Int) (row : Row)
    (entries : List Entry) (h : s.SameArrays st.snowflake) {home : Path}
    (hfit : ∀ e ∈ entries, Entry.Fits s home e) : Planted s st (st.entries uid row entries).1
        (ofEntries s st.snowflake.nextOf uid entries).1 ∧
      (st.entries uid row entries).1.snowflake.nextOf =
        (ofEntries s st.snowflake.nextOf uid entries).2 ∧
      (∀ e ∈ entries, e.label ∈ (st.entries uid row entries).1.snowflake.labels) ∧
      ofRow (st.entries uid row entries).2 = entries.foldl (Entry.write s) (.ofRow row) := by
  induction st, uid, row, entries using Shredding.entries.induct _
      (fun st parent path order items => s.SameArrays st.snowflake →
        (∀ item ∈ items, ∀ e ∈ item, Entry.Fits s path e) →
        Planted s st (st.children parent path order items)
            (ofItems s st.snowflake.nextOf parent path order items).1 ∧
          (st.children parent path order items).snowflake.nextOf =
            (ofItems s st.snowflake.nextOf parent path order items).2) generalizing home with
  | case1 st uid row =>
    rw [entries, ofEntries]
    exact ⟨planted_nil h, rfl, forall_mem_nil _, rfl⟩
  -- a cell: its column may be new, and the trees do not change
  | case2 st uid row path type value rest st' row' hstored ih =>
    have hstays := fun e he => hfit e (.tail _ he)
    cases hfit _ mem_cons_self with
    | cell canonical inside stored present =>
      have htype : type.storage ≠ .nested := fun heq => by
        rw [heq] at stored
        cases stored
      obtain ⟨hplanted, hnext, hlabel, hrow⟩ :=
        planted_store h canonical htype (fun hout => by rw [stored] at hout; cases hout) hstored
      obtain ⟨hmore, hafter, hlabels, hrest⟩ := ih hplanted.arrays hstays
      rw [entries, hstored, ofEntries, ← hnext]
      refine ⟨hplanted.append hmore, hafter, fun e he => ?_, ?_⟩
      · rcases mem_cons.1 he with rfl | he
        · exact hmore.labels _ hlabel
        · exact hlabels e he
      · rw [hrest, hrow]
        rfl
  -- an array: its count is stored, then its rows, and then the rest
  | case3 st uid row path items rest st' row' hstored observed hitems _ ih =>
    have hstays := fun e he => hfit e (.tail _ he)
    have hfits := hfit _ mem_cons_self
    cases hfits with
    | rows known inside some apart fit =>
      obtain ⟨hplanted, hnext, hlabel, hrow⟩ :=
        planted_store h (hs.canonical path known) (by decide) (fun _ => known) hstored
      have hobserved := planted_of_sameLayout hplanted.arrays
        (hplanted.arrays.laid.sameLayout_observeLength path items.length)
      -- noting a length numbers no rows
      have hcounters : observed.snowflake.nextOf = st.snowflake.nextOf := by
        rw [← hnext]
        funext n
        change (get? (tableName (st'.snowflake.observeLength path _) n)
          (st'.snowflake.observeLength path _).nextUid).getD 1 = _
        rw [tableName, fact_observeLength, (nested_observeLength _ _ _).2]
        rfl
      obtain ⟨hchildren, hmid⟩ := hitems hobserved.arrays fit
      obtain ⟨hmore, hafter, hlabels, hrest⟩ := ih hchildren.arrays hstays
      rw [entries, hstored, ofEntries]
      rw [hcounters] at hchildren hmid
      rw [hmid] at hmore hafter
      refine ⟨(hplanted.append hobserved).append (hchildren.append hmore), hafter,
        fun e he => ?_, ?_⟩
      · rcases mem_cons.1 he with rfl | he
        · exact hmore.labels _ (hchildren.labels _ (hobserved.labels _ hlabel))
        · exact hlabels e he
      · rw [hrest, hrow]
        rfl
  | case4 st parent path order h =>
    rw [children, ofItems]
    exact ⟨planted_nil h, rfl⟩
  -- a row is numbered first and pushed last, after what hangs on it
  | case5 st parent path order item rest table uid s' htaken row st' row' hitem hrow ih h hfit =>
    have htable : table = st.snowflake.tableName path := rfl
    obtain ⟨huid, hbump⟩ := nextOf_takeUid st.snowflake path
    have htook : Planted s st { st with snowflake := s' } [] := by
      have htook : Planted s st { st with snowflake := (st.snowflake.takeUid table).2 } [] :=
        planted_of_sameLayout h ⟨rfl, rfl, rfl⟩
      rwa [htaken] at htook
    rw [← htable, htaken] at huid hbump
    dsimp only at huid hbump
    obtain ⟨hbelow, hafter, hlabels, hcells⟩ := hrow htook.arrays (hfit item mem_cons_self)
    rw [hitem] at hbelow hafter hlabels hcells
    rw [hbump, huid] at hbelow hafter
    have hbase : ofRow row = itemCells (st.snowflake.nextOf path) parent order := by
      rw [← huid]
      rfl
    rw [hbase] at hcells
    have hholds : st'.snowflake.Holds path (.ofRow row') := by
      rw [hcells]
      exact holds_foldl_write hbelow.arrays (hfit item mem_cons_self) hlabels
        (begins_itemCells _ _ _).blank
    have hnode := planted_push _ hbelow hholds
    rw [← h.tableName, ← htable, hcells] at hnode
    have hpushed : (st'.push table row').snowflake.nextOf = _ := hafter
    obtain ⟨hmore, hend⟩ := ih hnode.arrays (fun other hother => hfit other (.tail _ hother))
    rw [hpushed] at hmore hend
    rw [children, htaken]
    dsimp only
    rw [hitem, ofItems]
    exact ⟨(htook.append hnode).append hmore, hend⟩

theorem planted_document (hs : s.ArraysOrdered) {st : Shredding} (h : s.SameArrays st.snowflake)
    (guid : String) {doc : Json} (hdoc : doc.Tidy) :
    Planted s st (st.document guid doc) (ofDocuments s st.snowflake.nextOf [(guid, doc)]).1 ∧
    (st.document guid doc).snowflake.nextOf =
      (ofDocuments s st.snowflake.nextOf [(guid, doc)]).2 := by
  have hfit := (fitRow_document hs hdoc).fit
  have hroot : st.snowflake.tableName .root = st.snowflake.fact := rfl
  have htook :
    Planted s st { st with snowflake := (st.snowflake.takeUid st.snowflake.fact).2 } [] :=
    planted_of_sameLayout h ⟨rfl, rfl, rfl⟩
  obtain ⟨huid, hbump⟩ := nextOf_takeUid st.snowflake .root
  rw [hroot] at huid hbump
  rcases planted_entries hs _ (st.snowflake.takeUid st.snowflake.fact).1
    (ofList [(uidColumn, .int (st.snowflake.takeUid st.snowflake.fact).1),
      (guidColumn, .str guid)]) _ htook.arrays hfit with ⟨hbelow, hafter, hlabels, hcells⟩
  have hbase : ofRow (ofList
      [(uidColumn, .int (st.snowflake.takeUid st.snowflake.fact).1), (guidColumn, .str guid)]) =
      documentCells (st.snowflake.nextOf .root) guid := by
    rw [huid]
    rfl
  rw [hbase] at hcells
  have hnode := planted_push .root hbelow (by
    rw [hcells]
    exact holds_foldl_write hbelow.arrays hfit hlabels (begins_documentCells _ _).blank)
  rw [← h.tableName, hroot, hcells] at hnode
  rw [hbump, huid] at hnode hafter
  unfold document
  dsimp only
  rw [htook.arrays.isNested, huid]
  exact ⟨htook.append hnode, hafter⟩

theorem planted_documents (hs : s.ArraysOrdered) (docs : List (String × Json))
    (hdocs : ∀ doc ∈ docs, doc.2.Tidy) (st : Shredding) (h : s.SameArrays st.snowflake) :
    Planted s st (docs.foldl (fun st (guid, doc) => st.document guid doc) st)
      (ofDocuments s st.snowflake.nextOf docs).1 ∧
    (docs.foldl (fun st (guid, doc) => st.document guid doc) st).snowflake.nextOf =
      (ofDocuments s st.snowflake.nextOf docs).2 := by
  induction docs generalizing st with
  | nil => exact ⟨planted_nil h, rfl⟩
  | cons doc rest ih =>
    obtain ⟨guid, doc⟩ := doc
    obtain ⟨hfirst, hnext⟩ := planted_document hs h guid (hdocs _ mem_cons_self)
    obtain ⟨hmore, hend⟩ := ih (fun d hd => hdocs d (.tail _ hd)) _ hfirst.arrays
    rw [hnext] at hmore hend
    exact ⟨hfirst.append hmore, hend⟩

end

end Shredding

namespace Snowflake

variable {s : Snowflake} {growth : Growth}

/-- What is asked of a catalog: a column or an array, or to store documents. -/
inductive Growth where
  | ask (request : Request)
  | documents (clock : Float) (docs : List (String × Json))

/-- The time at which it is asked. -/
def Growth.clock : Growth → Float
  | ask (.column clock _ _) | ask (.array clock _) | documents clock _ => clock

/-- The paths that are asked for are canonical. Those in documents always
    are, whatever their keys. -/
def Growth.Fit : Growth → Prop
  | ask request => request.path.Canonical
  | documents _ _ => True

instance : (growth : Growth) → Decidable growth.Fit
  | .ask request => inferInstanceAs (Decidable request.path.Canonical)
  | .documents _ _ => .isTrue trivial

/-- The catalog after that. -/
def grow (s : Snowflake) : Growth → Snowflake
  | .ask request => s.ask request
  | .documents clock docs => ({ s with clock }.shred docs).2

/-- What is asked is refused, or done in steps. -/
theorem Laid.reaches_grow (hs : s.Laid) (hfit : growth.Fit) :
    s.grow growth = s ∨ { s with clock := growth.clock }.Reaches (s.grow growth) := by
  have htimed : ∀ clock : Float, { s with clock }.Laid := fun clock =>
    hs.of_sameLayout ⟨rfl, rfl, rfl⟩
  cases growth with
  | documents clock docs => exact .inr ((htimed clock).reaches_shred docs)
  | ask request =>
    cases request with
    | column clock path type =>
      simp only [grow, Snowflake.ask]
      split
      next hadd => exact .inr ((htimed clock).reaches_addColumn hfit hadd)
      · exact .inl rfl
    | array clock path =>
      simp only [grow, Snowflake.ask]
      split
      next hnest => exact .inr ((htimed clock).reaches_nest hfit hnest)
      · exact .inl rfl

theorem Laid.grow_keeps {P : Snowflake → Prop}
    (hstep : ∀ {s s'}, s.Laid → Step s s' → P s → P s') (hs : s.Laid) (hfit : growth.Fit) (hP : P s)
    (htimed : P { s with clock := growth.clock }) :
    (s.grow growth).Laid ∧ P (s.grow growth) := by
  rcases hs.reaches_grow hfit with hsame | hreaches
  · rw [hsame]
    exact ⟨hs, hP⟩
  · exact hreaches.keeps hstep (hs.of_sameLayout ⟨rfl, rfl, rfl⟩) htimed

end Snowflake

end Snowbank
