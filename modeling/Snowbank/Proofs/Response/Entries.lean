import Snowbank.Proofs.Response.Rows
import Snowbank.Proofs.Snowflake.Planting

/-!
# Reading Rows That Were Written

A row is written from entries and read by labels. What it has something under
are the labels of its entries, as each entry is at a place of its own; so the
parts that its value is made up of are the changes of the entries.

## Main definitions

* `Written`: The rows on a row are what the arrays among its entries say.

## Theorems

* `fills_foldl_write`: A row has something under the labels of its entries.
* `values_ofDocuments`: The values of trees are what the entries say.
-/

namespace Snowbank

open List Entry

namespace Entry

open Json Snowflake

section

variable {home : Path} {entries : List Entry} (h : Readable home entries)

include h

theorem Readable.clean : ∀ e ∈ entries, e.path.Clean := by
  cases h with
  | single clean present => exact fun e he => mem_singleton.1 he ▸ clean
  | fields clean beneath apart present below => exact clean

theorem Readable.apart {d e : Entry} (hd : d ∈ entries) (he : e ∈ entries) (hne : d ≠ e) :
    Apart d.path.keys e.path.keys := by
  cases h with
  | single clean present =>
    exact absurd ((mem_singleton.1 hd).trans (mem_singleton.1 he).symm) hne
  | fields clean beneath apart present below =>
    have : Std.Symm fun d e : Entry => Apart d.path.keys e.path.keys := ⟨fun _ _ hab => hab.symm⟩
    exact apart.forall hd he hne

theorem Readable.present {path : Path} {type : DataType} {value : Json}
    (he : cell path type value ∈ entries) : (read type value).IsTip := by
  cases h with
  | single clean present =>
    cases mem_singleton.1 he
    exact present
  | fields clean beneath apart present below => exact present path type value he

theorem Readable.items {path : Path} {items : List (List Entry)} (he : rows path items ∈ entries) :
    ∀ item ∈ items, Readable path item := by
  cases h with
  | single clean present => cases mem_singleton.1 he
  | fields clean beneath apart present below => exact below path items he

end

section

variable {s : Snowflake} {home : Path}

variable {e : Entry} {path : Path} {type : DataType} {value : Json}

theorem Fits.isNull_content (h : Fits s home e) : e.content.isNull = false := by
  cases h with
  | cell canonical inside stored present => exact present
  | rows known inside some => rfl

theorem Fits.label_ne_nested (h : Fits s home e) : e.label.2 ≠ .nested := by
  cases h with
  | cell canonical inside stored =>
    intro htype
    change DataType.storage _ = _ at htype
    rw [htype] at stored
    cases stored
  | rows => exact nofun

/-- Values are not stored where the rows of an array are counted. -/
theorem Fits.storage_ne_presence
    (h : Fits s home (Entry.cell path type value)) : type.storage ≠ .presence := by
  cases h with
  | cell canonical inside stored =>
    intro htype
    rw [htype] at stored
    cases stored

variable (hs : s.Laid)

include hs

/-- A column of a table that has the name of an entry of its rows is for that entry. -/
theorem Fits.label_eq_of_columnName (he : Fits s home e)
    (hlabel : (path, type) ∈ s.labels) (hhome : s.homeOf path type = home)
    (h : s.columnName path type = e.column s) : (path, type) = e.label := by
  obtain ⟨hcanonical, hstorage, houtside⟩ := hs.of_label hlabel
  have hunder := (isHome_homeOf hs.toArraysOrdered houtside).under
  obtain ⟨hpath, hbeneath⟩ := he.isUnder hs.toArraysOrdered
  rw [column, columnName, columnName, he.home_label, hhome, path_eq_label] at h
  rw [hhome] at hunder
  obtain ⟨hsame, htype⟩ := Path.typed_relativeTo_inj hcanonical hpath hunder hbeneath h
  rw [hstorage, storage_label] at htype
  exact Prod.ext (hsame.trans (path_eq_label e).symm) htype

variable {entries : List Entry} (hfit : FitRow s home entries) {base : Cells}

include hfit

omit hs in
theorem FitRow.nodup_labels : (entries.map label).Nodup := by
  have hpaths : (entries.map label).map Prod.fst = entries.map path := by
    rw [map_map]
    exact map_congr_left fun e _ => path_eq_label e
  refine Nodup.of_map Prod.fst ?_
  rw [hpaths]
  exact hfit.apart

/-- If a row holds values in columns of its table only, then its entries have columns there. -/
theorem FitRow.label_mem (hholds : s.Holds home (entries.foldl (write s) base))
    (he : e ∈ entries) : e.label ∈ s.labels := by
  by_cases hcell : s.HasCell home (e.column s)
  · obtain ⟨path, type, hlabel, _, hhome, hname⟩ := hcell
    exact (hfit.fit e he).label_eq_of_columnName hs hlabel hhome hname ▸ hlabel
  · have hnull := hholds _ (column_not_reserved s e) hcell
    have hcontent := (hfit.fit e he).isNull_content
    rw [hfit.foldl_write hs.toArraysOrdered he] at hnull
    rw [hnull] at hcontent
    cases hcontent

theorem labelValue_label (he : cell path type value ∈ entries) :
    s.labelValue (entries.foldl (write s) base) (cell path type value).label = read type value := by
  have hcell := hfit.foldl_write hs.toArraysOrdered he base
  change entries.foldl (write s) base (s.columnName path type.storage) = value at hcell
  change typedValue type.storage
    (entries.foldl (write s) base (s.columnName path type.storage)) _ = _
  rw [label, hcell]
  rfl

variable {uid : Int} (hbase : Node.Begins uid base)
  (hholds : s.Holds home (entries.foldl (write s) base))

include hbase hholds

theorem fills_foldl_write {l : Path × DataType} :
    s.Fills home (entries.foldl (write s) base) l ↔ ∃ e ∈ entries, e.label = l := by
  constructor
  · rintro ⟨hlabel, _, hhome, hsome⟩
    by_cases hentry : ∃ e ∈ entries, e.column s = s.columnName l.1 l.2
    · obtain ⟨e, he, hcolumn⟩ := hentry
      exact ⟨e, he, ((hfit.fit e he).label_eq_of_columnName hs hlabel hhome hcolumn.symm).symm⟩
    · -- a column that no entry has is null from the beginning
      have hblank : base (s.columnName l.1 l.2) = .null :=
        hbase.blank _ (Path.typed_not_reserved _ _)
      rw [foldl_write_of_ne fun e he heq => hentry ⟨e, he, heq⟩, hblank] at hsome
      cases hsome
  · rintro ⟨e, he, rfl⟩
    refine ⟨hfit.label_mem hs hholds he, (hfit.fit e he).label_ne_nested,
      (hfit.fit e he).home_label, ?_⟩
    change (entries.foldl (write s) base (e.column s)).isNull = false
    rw [hfit.foldl_write hs.toArraysOrdered he]
    exact (hfit.fit e he).isNull_content

theorem perm_labels : (s.content home (entries.foldl (write s) base)).Perm (entries.map label) := by
  refine (perm_ext_iff_of_nodup (hs.unique.sublist filter_sublist) hfit.nodup_labels).2
    fun l => ?_
  change l ∈ s.content _ _ ↔ _
  rw [mem_content, fills_foldl_write hs hfit hbase hholds, mem_map]

theorem Readable.reads (h : Readable home entries) :
    s.Reads home (entries.foldl (write s) base) where
  clean := by
    intro l hl
    obtain ⟨e, he, rfl⟩ := (fills_foldl_write hs hfit hbase hholds).1 hl
    rw [path_eq_label]
    exact h.clean e he
  apart := by
    intro l l' hl hl' hne
    obtain ⟨d, hd, rfl⟩ := (fills_foldl_write hs hfit hbase hholds).1 hl
    obtain ⟨e, he, rfl⟩ := (fills_foldl_write hs hfit hbase hholds).1 hl'
    rw [path_eq_label, path_eq_label]
    exact h.apart hd he fun heq => hne (congrArg label heq)
  tip := by
    intro l hl hpresence
    obtain ⟨e, he, rfl⟩ := (fills_foldl_write hs hfit hbase hholds).1 hl
    cases e with
    | rows path items => exact absurd rfl hpresence
    | cell path type value =>
      rw [labelValue_label hs hfit he]
      exact h.present he

end

end Entry

namespace Node

open Plan Json Snowflake

/-- Rows that hang on a row can be read, and are what the arrays among its entries say. -/
structure Written (s : Snowflake) (entries : List Entry) (nodes : List Node) : Prop where
  reads : ∀ m, ∀ r ∈ rowsOf nodes m, s.Reads m r
  values : ∀ path items, .rows path items ∈ entries →
    (nodes.filter fun y => y.path == path).map (value s) = items.map (rowJson path)

section

variable {s : Snowflake} (hs : s.Laid) {n : Path} {entries : List Entry} {children : List Node}
  (h : Written s entries children)

include hs h

variable {base : Cells}

/-- The part of a row under the label of an entry is the change of the entry. -/
theorem Written.change_label (hfit : Entry.FitRow s n entries) {e : Entry} (he : e ∈ entries) :
    change s (Node.mk n (entries.foldl (write s) base) children) e.label = e.edit n := by
  cases e with
  | cell path type value =>
    refine (congrArg (Edit.mk _) (if_neg (hfit.fit _ he).storage_ne_presence)).trans ?_
    exact congrArg (fun v => Edit.mk (path.keys.drop n.depth) fun _ => v)
      (labelValue_label hs hfit he)
  | rows path items =>
    refine (congrArg (Edit.mk _) (if_pos rfl)).trans ?_
    rw [Entry.edit, itemValues_eq, ← h.values path items he]
    rfl

/-- A row that was written from readable entries can be read, and is what the entries make up. -/
theorem Written.row (hn : n ∈ arrays s) (hfit : Entry.FitRow s n entries)
    (hread : Entry.Readable n entries) {uid : Int} (hbase : Begins uid base)
    (hproper : Proper s (Node.mk n (entries.foldl (write s) base) children))
    (hholds : s.Holds n (entries.foldl (write s) base)) : s.Reads n (entries.foldl (write s) base) ∧
      value s (Node.mk n (entries.foldl (write s) base) children) = rowJson n entries := by
  have hreads := hread.reads hs hfit hbase hholds
  have hedits : (entries.map label).map
      (change s (Node.mk n (entries.foldl (write s) base) children)) = entries.map (edit n) := by
    rw [map_map]
    exact map_congr_left fun e he => h.change_label hs hfit he
  have hrun := run_perm ((perm_labels hs hfit hbase hholds).map
    (change s (.mk n (entries.foldl (write s) base) children)))
    (pairwise_change (x := .mk n (entries.foldl (write s) base) children) hs hreads) .null
  refine ⟨hreads, ?_⟩
  rw [rowJson, ← hedits, ← hrun]
  exact value_eq hs hproper hn hreads

end

section

variable {s : Snowflake} (hs : s.Laid)

include hs

variable {docs : List (String × Json)}

/-- The rows that hang on a row that was written. -/
theorem written_ofEntries (entries : List Entry) (next : Counters) (uid : Int) {home : Path}
    (hfit : Entry.FitRow s home entries)
    (hread : ∀ path items, Entry.rows path items ∈ entries → ∀ item ∈ items,
    Entry.Readable path item)
    (hholds : ∀ m, ∀ r ∈ rowsOf (ofEntries s next uid entries).1 m, s.Holds m r) :
    Written s entries (ofEntries s next uid entries).1 := by
  induction next, uid, entries using ofEntries.induct s _
      (fun next parent path order items => path ∈ s.nested →
        (∀ item ∈ items, Entry.FitRow s path item) → (∀ item ∈ items, Entry.Readable path item) →
        (∀ m, ∀ r ∈ rowsOf (ofItems s next parent path order items).1 m, s.Holds m r) →
          (∀ m, ∀ r ∈ rowsOf (ofItems s next parent path order items).1 m, s.Reads m r) ∧
            (ofItems s next parent path order items).1.map (value s) =
              items.map (rowJson path)) generalizing home with
  | case1 next uid =>
    rw [ofEntries]
    exact ⟨fun m r hr => absurd hr not_mem_nil, fun p is his => absurd his not_mem_nil⟩
  -- a cell makes no rows
  | case2 next uid path type value rest ih =>
    rw [ofEntries] at hholds ⊢
    have hrest := ih hfit.tail (fun p is his => hread p is (.tail _ his)) hholds
    exact ⟨hrest.reads, fun p is his =>
      hrest.values p is ((mem_cons.1 his).resolve_left Entry.noConfusion)⟩
  -- the rows of an array are those at its path, since paths differ
  | case3 next uid path items rest made ihitems =>
    rename_i ih
    have hknown : path ∈ s.nested := by
      cases hfit.fit _ mem_cons_self with
      | rows known => exact known
    have hfirst : ∀ e ∈ rest, e.path ≠ path := fun e he heq =>
      (nodup_cons.1 hfit.apart).1 (mem_map.2 ⟨e, he, heq⟩)
    rw [ofEntries, rowsOf_append] at hholds
    rcases ihitems hknown (hfit.fit _ mem_cons_self).items (hread path items mem_cons_self)
      (fun m r hr => hholds m r (mem_append_left _ hr)) with ⟨hreads, hvalues⟩
    have hmore := ih hfit.tail (fun p is his => hread p is (.tail _ his))
      (fun m r hr => hholds m r (mem_append_right _ hr))
    have hpaths : ∀ y ∈ (ofItems s next uid path 0 items).1, y.path = path := fun y hy =>
      ((ofItems_spec items next uid path 0).1 y hy).1
    rw [ofEntries]
    refine ⟨fun m r hr => ?_, fun p is his => ?_⟩
    · rw [rowsOf_append] at hr
      exact (mem_append.1 hr).elim (hreads m r) (hmore.reads m r)
    · rw [filter_append, map_append]
      rcases mem_cons.1 his with heq | his
      · -- no later entry is at the path of this one
        obtain ⟨rfl, rfl⟩ := rows.inj heq
        rw [filter_eq_self.2 fun y hy => beq_iff_eq.2 (hpaths y hy), hvalues,
          filter_eq_nil_iff.2, map_nil, append_nil]
        intro y hy hpath
        obtain ⟨items', hitems'⟩ := (of_mem_ofEntries hy).2
        exact hfirst _ hitems' (eq_of_beq hpath)
      · have hne : p ≠ path := hfirst _ his
        rw [filter_eq_nil_iff.2 fun y hy hpath =>
          hne ((eq_of_beq hpath).symm.trans (hpaths y hy)), map_nil, nil_append]
        exact hmore.values p is his
  | case4 next parent path order =>
    rw [ofItems]
    exact ⟨fun m r hr => absurd hr not_mem_nil, rfl⟩
  -- what hangs on a row is known before the row is read
  | case5 next parent path order item rest below ihitem ih hpath hfit hread hholds =>
    have hitem := hfit item mem_cons_self
    have hreads := hread item mem_cons_self
    rw [ofItems, ← singleton_append, rowsOf_append] at hholds
    have hfirst := fun m r hr => hholds m r (mem_append_left _ (mem_rowsOf_mk.2 hr))
    have hbelow := ihitem hitem (fun p is his => hreads.items his) fun m r hr =>
      hfirst m r (.inl hr)
    rcases ih hpath (fun other h => hfit other (.tail _ h)) (fun other h => hread other (.tail _ h))
      (fun m r hr => hholds m r (mem_append_right _ hr)) with ⟨hmore, hvalues⟩
    rcases hbelow.row hs ((mem_arrays hs.toArraysOrdered).2 (.inr hpath)) hitem hreads
      (begins_itemCells _ _ _) (proper_mk hs.toArraysOrdered hitem (begins_itemCells _ _ _)
        (proper_ofEntries hs.toArraysOrdered item _ _ hitem))
      (hfirst path _ (.inr ⟨rfl, rfl⟩)) with ⟨hrow, hvalue⟩
    rw [ofItems]
    refine ⟨fun m r hr => ?_, ?_⟩
    · rw [← singleton_append, rowsOf_append] at hr
      rcases mem_append.1 hr with hr | hr
      · rcases mem_rowsOf_mk.1 hr with hr | ⟨rfl, rfl⟩
        · exact hbelow.reads m r hr
        · exact hrow
      · exact hmore m r hr
    · rw [map_cons, map_cons, hvalue, hvalues]

theorem row_document {doc : Json} (hdoc : doc.Document)
    (hread : Entry.Readable .root (ofJson s.isNested .root .root doc))
    (next : Counters) (guid : String)
    (hholds : ∀ m, ∀ r ∈ rowsOf (ofDocuments s next [(guid, doc)]).1 m, s.Holds m r) :
    (∀ m, ∀ r ∈ rowsOf (ofDocuments s next [(guid, doc)]).1 m, s.Reads m r) ∧
      (ofDocuments s next [(guid, doc)]).1.map (value s) =
        [rowJson .root (ofJson s.isNested .root .root doc)] := by
  have hfit := fitRow_document hs.toArraysOrdered hdoc.2
  have hproper := proper_mk hs.toArraysOrdered hfit (begins_documentCells (next .root) guid)
    (proper_ofEntries hs.toArraysOrdered _ (next.bump .root) _ hfit)
  rw [ofDocuments, ofDocuments] at hholds ⊢
  have hfirst := fun m r hr => hholds m r (mem_rowsOf_mk.2 hr)
  have hbelow := written_ofEntries hs _ _ _ hfit (fun p is his => hread.items his) fun m r hr =>
    hfirst m r (.inl hr)
  rcases hbelow.row hs ((mem_arrays hs.toArraysOrdered).2 (.inl rfl)) hfit hread
    (begins_documentCells _ guid) hproper (hfirst .root _ (.inr ⟨rfl, rfl⟩)) with ⟨hrow, hvalue⟩
  refine ⟨fun m r hr => ?_, by rw [map_singleton, hvalue]⟩
  rcases mem_rowsOf_mk.1 hr with hr | ⟨rfl, rfl⟩
  · exact hbelow.reads m r hr
  · exact hrow

omit hs in
theorem ofDocuments_cons (next : Counters) (doc : String × Json) (rest : List (String × Json)) :
    (ofDocuments s next (doc :: rest)).1 = (ofDocuments s next [doc]).1 ++
      (ofDocuments s (ofDocuments s next [doc]).2 rest).1 := by
  obtain ⟨guid, doc⟩ := doc
  rw [ofDocuments]
  rfl

/-- The rows of the trees of documents can be read, and are what their entries make up. -/
theorem rows_ofDocuments
    (hdocs : ∀ doc ∈ docs, doc.2.Document ∧ doc.2.Numbers Shown) (next : Counters)
    (hholds : ∀ m, ∀ r ∈ rowsOf (ofDocuments s next docs).1 m, s.Holds m r) :
    (∀ m, ∀ r ∈ rowsOf (ofDocuments s next docs).1 m, s.Reads m r) ∧
      (ofDocuments s next docs).1.map (value s) = docs.map fun doc =>
        rowJson .root (ofJson s.isNested .root .root doc.2) := by
  induction docs generalizing next with
  | nil => exact ⟨fun _ _ hr => absurd hr not_mem_nil, rfl⟩
  | cons doc rest ih =>
    rw [forall_mem_cons] at hdocs
    rw [ofDocuments_cons, rowsOf_append] at hholds ⊢
    have hfirst := row_document hs hdocs.1.1 (readable_document s.isNested hdocs.1.1 hdocs.1.2)
      next doc.1 fun m r hr => hholds m r (mem_append_left _ hr)
    have hrest := ih hdocs.2 _ fun m r hr => hholds m r (mem_append_right _ hr)
    refine ⟨fun m r hr => (mem_append.1 hr).elim (hfirst.1 m r) (hrest.1 m r), ?_⟩
    rw [map_append, hfirst.2, hrest.2]
    rfl

theorem values_ofDocuments (hdocs : ∀ doc ∈ docs, doc.2.Document ∧ doc.2.Legible) (next : Counters)
    (hholds : ∀ m, ∀ r ∈ rowsOf (ofDocuments s next docs).1 m, s.Holds m r) :
    (ofDocuments s next docs).1.map (value s) =
      docs.map fun doc => restoredDocument s.isNested doc.2 := by
  refine (rows_ofDocuments hs (fun doc hdoc => ?_) next hholds).2.trans
    (map_congr_left fun doc hdoc => ?_)
  · exact ⟨(hdocs doc hdoc).1, Legible.numbers _ (hdocs doc hdoc).2⟩
  · exact (rowJson_document s.isNested (hdocs doc hdoc).1 (hdocs doc hdoc).2).2

omit hs in
theorem numbered_ofDocuments (hs : s.ArraysOrdered)
    (hdocs : ∀ doc ∈ docs, doc.2.Tidy) (next : Counters) :
    (ofDocuments s next docs).1.Pairwise fun x y => x.cells.uid.rank ≤ y.cells.uid.rank := by
  obtain ⟨uids, huids, hsorted, _⟩ := (used_ofDocuments hs docs hdocs next).1.numbers .root
  rw [rowsOf, (sprouted_ofDocuments hs docs hdocs next).withinAll_root hs, map_map] at huids
  have hranks : ((ofDocuments s next docs).1.map (Cells.uid ∘ cells)).Pairwise fun a b =>
      a.rank ≤ b.rank := by
    rw [huids]
    exact pairwise_map.2 (hsorted.imp fun hlt => Json.rank_int_le (Int.le_of_lt hlt))
  rw [pairwise_map] at hranks
  exact hranks

end

end Node

end Snowbank
