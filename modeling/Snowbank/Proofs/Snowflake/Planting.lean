import Snowbank.Proofs.Snowflake.Entries
import Snowbank.Proofs.Snowflake.Forest
import Snowbank.Proofs.Snowflake.Migration

/-!
# Trees from Documents

The rows of documents as trees, without tables and without a catalog that
grows: a row is written entry by entry, and rows are numbered as they begin,
each array on its own.

The names of columns follow from where the arrays are, so they are the same
from the first row to the last. What is written under them stays, because the
entries of a row are at different paths and so have different columns.

## Main definitions

* `Counters`: The number of the next row of each array.
* `ofDocuments`: The trees of documents.

## Theorems

* `FitRow.foldl_write`: What is written for an entry can be read.
* `sprouted_ofDocuments`: The numbers in the trees are unique.
-/

namespace Snowbank

open List Entry Ordered Cells

variable {r cells : Cells} {children : List Node} {path n home : Path}

namespace Entry

/-- What an entry is stored under. -/
def label : Entry → Path × DataType
  | cell path type _ => (path, type.storage)
  | rows path _ => (path, .presence)

/-- The name of the column that an entry is stored in. -/
def column (s : Snowflake) (e : Entry) : String := s.columnName e.label.1 e.label.2

/-- What is stored there: for an array, how many rows it has. -/
def content : Entry → Json
  | cell _ _ value => value
  | rows _ items => .nat items.length

/-- A row with one more entry. -/
def write (s : Snowflake) (r : Cells) (e : Entry) : Cells := fun column =>
  if column = e.column s then e.content else r column

section

open Snowflake

variable {s : Snowflake} {home : Path}

variable {e : Entry} {column : String} {entries : List Entry}

theorem column_not_reserved (s : Snowflake) (e : Entry) : e.column s ∉ reservedNames :=
  Path.typed_not_reserved _ _

theorem Fits.home_label (h : Fits s home e) : s.homeOf e.label.1 e.label.2 = home := by
  cases h with
  | cell canonical inside stored present => exact (homeOf_of_inside stored _).trans inside
  | rows known inside => exact inside

theorem Fits.isUnder (hs : s.ArraysOrdered) (h : Fits s home e) :
    e.path.Canonical ∧ e.path.isUnder home := by
  cases h with
  | cell canonical inside => exact ⟨canonical, inside ▸ (isHome_nestedPathOf hs _).under⟩
  | rows known inside =>
    exact ⟨hs.canonical _ known, inside ▸ (isHome_parentNestedPath hs fun hroot =>
      hs.not_root (hroot ▸ known)).under⟩

theorem path_eq_label (e : Entry) : e.label.1 = e.path := by
  cases e <;> rfl

theorem storage_label (e : Entry) : e.label.2.storage = e.label.2 := by
  cases e with
  | cell path type value => exact DataType.storage_storage type
  | rows path items => rfl

/-- Entries of one row that have one column are at one path. -/
theorem Fits.label_eq (hs : s.ArraysOrdered) {d : Entry} (hd : Fits s home d) (he : Fits s home e)
    (h : d.column s = e.column s) : d.label = e.label := by
  rw [column, column, columnName, columnName, hd.home_label, he.home_label, path_eq_label,
    path_eq_label] at h
  rcases Path.typed_relativeTo_inj (hd.isUnder hs).1 (he.isUnder hs).1 (hd.isUnder hs).2
    (he.isUnder hs).2 h with ⟨hpath, htype⟩
  rw [storage_label, storage_label] at htype
  exact Prod.ext ((path_eq_label d).trans (hpath.trans (path_eq_label e).symm)) htype

theorem foldl_write_of_ne (h : ∀ e ∈ entries, e.column s ≠ column) (r : Cells) :
    entries.foldl (write s) r column = r column := by
  induction entries generalizing r with
  | nil => rfl
  | cons e rest ih =>
    rw [foldl_cons, ih fun d hd => h d (.tail _ hd)]
    exact if_neg fun heq => h e mem_cons_self heq.symm

theorem foldl_write_reserved (h : column ∈ reservedNames) (entries : List Entry)
    (r : Cells) : entries.foldl (write s) r column = r column :=
  foldl_write_of_ne (fun e _ heq => column_not_reserved s e (heq ▸ h)) r

theorem FitRow.foldl_write (hs : s.ArraysOrdered) (h : FitRow s home entries)
    (he : e ∈ entries) (r : Cells) :
    entries.foldl (write s) r (e.column s) = e.content := by
  induction entries generalizing r with
  | nil => cases he
  | cons d rest ih =>
    have hapart := nodup_cons.1 h.apart
    have hrest : FitRow s home rest := ⟨hapart.2, fun d hd => h.fit d (.tail _ hd)⟩
    rw [foldl_cons]
    rcases mem_cons.1 he with rfl | he
    · rw [foldl_write_of_ne]
      · exact if_pos rfl
      · intro d hd heq
        have hlabel := (hrest.fit d hd).label_eq hs (h.fit e mem_cons_self) heq
        refine hapart.1 (mem_map.2 ⟨d, hd, ?_⟩)
        rw [← path_eq_label, ← path_eq_label, hlabel]
    · exact ih hrest he _

end

end Entry

/-- The number of the next row of each array. -/
abbrev Counters := Path → Int

namespace Counters

/-- The counters when a row of an array has been numbered. -/
def bump (next : Counters) (path : Path) : Counters := fun n =>
  if n = path then next n + 1 else next n

/-- Rows have numbers from one state of the counters to another, in order. -/
structure Used (next after : Counters) (rows : RowsByPath) : Prop where
  le : ∀ n, next n ≤ after n
  numbers : ∀ n, ∃ uids : List Int, (rows n).map uid = uids.map Json.int ∧
    uids.Pairwise (· < ·) ∧ ∀ uid ∈ uids, next n ≤ uid ∧ uid < after n

variable {next mid after : Counters} {rows more : RowsByPath}

theorem used_nil (next : Counters) : Used next next fun _ => [] where
  le := fun _ => Int.le_refl _
  numbers := fun _ => ⟨[], rfl, Pairwise.nil, forall_mem_nil _⟩

theorem used_bump (h : r.uid = .int (next path)) :
    Used next (next.bump path) fun n => if path = n then [r] else [] where
  le := by
    intro n
    unfold bump
    split <;> omega
  numbers := by
    intro n
    by_cases hn : path = n
    · refine ⟨[next n], ?_, pairwise_singleton _ _, fun uid huid => ?_⟩
      · rw [if_pos hn, map_singleton, h, hn]
        rfl
      · rw [mem_singleton.1 huid, bump, if_pos hn.symm]
        omega
    · exact ⟨[], by rw [if_neg hn]; rfl, Pairwise.nil, forall_mem_nil _⟩

theorem Used.append (h : Used next mid rows) (hmore : Used mid after more) :
    Used next after fun n => rows n ++ more n where
  le := fun n => Int.le_trans (h.le n) (hmore.le n)
  numbers := by
    intro n
    obtain ⟨as, heqa, hsorta, hina⟩ := h.numbers n
    obtain ⟨bs, heqb, hsortb, hinb⟩ := hmore.numbers n
    have hle := h.le n
    have hle' := hmore.le n
    refine ⟨as ++ bs, by rw [map_append, map_append, heqa, heqb],
      pairwise_append.2 ⟨hsorta, hsortb, fun a ha b hb => ?_⟩, fun uid huid => ?_⟩
    · have := hina a ha
      have := hinb b hb
      omega
    · rcases mem_append.1 huid with huid | huid
      · have := hina uid huid
        omega
      · have := hinb uid huid
        omega

theorem Used.unique (h : Used next after rows) (n : Path) : ((rows n).map uid).Nodup := by
  obtain ⟨uids, heq, hsort, _⟩ := h.numbers n
  rw [heq]
  refine pairwise_map.2 (hsort.imp fun {a b} hlt heq => ?_)
  have hint : a = b := Number.int.inj (Json.num.inj heq)
  omega

theorem Used.of_mem (h : Used next after rows) (hr : r ∈ rows n) :
    ∃ uid : Int, r.uid = .int uid ∧ next n ≤ uid ∧ uid < after n := by
  obtain ⟨uids, heq, _, hin⟩ := h.numbers n
  have huid : r.uid ∈ uids.map Json.int := heq ▸ mem_map_of_mem hr
  obtain ⟨uid, hmem, hint⟩ := mem_map.1 huid
  exact ⟨uid, hint.symm, hin uid hmem⟩

end Counters

namespace Node

/-- The cells that every row of an array has. -/
def itemCells (uid parent : Int) (order : Nat) : Cells := .ofRow (ofList
    [(uidColumn, .int uid), (parentColumn, .int parent), (orderColumn, .nat order)])

/-- The cells that every row of a document has. -/
def documentCells (uid : Int) (guid : String) : Cells :=
  .ofRow (ofList [(uidColumn, .int uid), (guidColumn, .str guid)])

mutual

/-- The rows of the arrays among entries, which hang on the row with a number. -/
def ofEntries (s : Snowflake) (next : Counters) (uid : Int) :
    List Entry → List Node × Counters
  | [] => ([], next)
  | .cell _ _ _ :: rest => ofEntries s next uid rest
  | .rows path items :: rest =>
    let made := ofItems s next uid path 0 items
    let more := ofEntries s made.2 uid rest
    (made.1 ++ more.1, more.2)

/-- The rows of an array, from a position on. -/
def ofItems (s : Snowflake) (next : Counters) (parent : Int) (path : Path) (order : Nat) :
    List (List Entry) → List Node × Counters
  | [] => ([], next)
  | item :: rest =>
    let below := ofEntries s (next.bump path) (next path) item
    let more := ofItems s below.2 parent path (order + 1) rest
    (.mk path (item.foldl (write s) (itemCells (next path) parent order)) below.1 :: more.1,
      more.2)

end

/-- The trees of documents, each under its name. -/
def ofDocuments (s : Snowflake) (next : Counters) :
    List (String × Json) → List Node × Counters
  | [] => ([], next)
  | (guid, doc) :: rest =>
    let entries := ofJson s.isNested .root .root doc
    let below := ofEntries s (next.bump .root) (next .root) entries
    let more := ofDocuments s below.2 rest
    (.mk .root (entries.foldl (write s) (documentCells (next .root) guid)) below.1 ::
      more.1, more.2)

theorem itemCells_apply (uid parent : Int) (order : Nat) (column : String) :
    itemCells uid parent order column = if column = orderColumn then .nat order
      else if column = parentColumn then .int parent
      else if column = uidColumn then .int uid else .null := by
  simp only [itemCells, ofRow, ofList, foldl_cons, foldl_nil,
    get?_insert, get?]
  split
  · rfl
  · split
    · rfl
    · split <;> rfl

theorem documentCells_apply (uid : Int) (guid column : String) : documentCells uid guid column =
      if column = guidColumn then .str guid
      else if column = uidColumn then .int uid else .null := by
  simp only [documentCells, ofRow, ofList, foldl_cons, foldl_nil,
    get?_insert, get?]
  split
  · rfl
  · split <;> rfl

/-- The cells that a row begins with: its number, and nothing in the columns of the catalog. -/
structure Begins (uid : Int) (base : Cells) : Prop where
  uid : base.uid = .int uid
  blank : ∀ column, column ∉ reservedNames → base column = .null

theorem ne_reserved {column name : String} (h : column ∉ reservedNames)
    (hname : name ∈ reservedNames) :
    column ≠ name := fun heq => h (heq ▸ hname)

theorem begins_itemCells (uid parent : Int) (order : Nat) :
    Begins uid (itemCells uid parent order) where
  uid := itemCells_apply uid parent order uidColumn
  blank column h := by
    rw [itemCells_apply, if_neg (ne_reserved h (by decide)), if_neg (ne_reserved h (by decide)),
      if_neg (ne_reserved h (by decide))]

theorem begins_documentCells (uid : Int) (guid : String) : Begins uid (documentCells uid guid) where
  uid := documentCells_apply uid guid uidColumn
  blank column h := by
    rw [documentCells_apply, if_neg (ne_reserved h (by decide)), if_neg (ne_reserved h (by decide))]

section

open Snowflake

variable {s : Snowflake}

variable {entries : List Entry} {next : Counters} {uid : Int}

theorem ofItems_spec (items : List (List Entry)) (next : Counters) (parent : Int) (path : Path)
    (order : Nat) : (∀ y ∈ (ofItems s next parent path order items).1,
      y.path = path ∧ y.cells.parent = .int parent) ∧
    (ofItems s next parent path order items).1.map (fun y => y.cells.order) =
      (List.range' order items.length).map Json.nat := by
  induction items generalizing next order with
  | nil =>
    rw [ofItems]
    exact ⟨forall_mem_nil _, rfl⟩
  | cons item rest ih =>
    rw [ofItems]
    obtain ⟨hmore, horders⟩ := ih (ofEntries s (next.bump path) (next path) item).2 (order + 1)
    refine ⟨fun y hy => ?_, ?_⟩
    · rcases mem_cons.1 hy with rfl | hy
      · refine ⟨rfl, (foldl_write_reserved (by decide) item _).trans ?_⟩
        exact itemCells_apply _ _ _ parentColumn
      · exact hmore y hy
    · have hfirst : (item.foldl (write s) (itemCells (next path) parent order)).order =
          .nat order :=
        (foldl_write_reserved (by decide) item _).trans (itemCells_apply _ _ _ orderColumn)
      rw [map_cons, horders, length_cons, range'_succ, map_cons]
      exact congrArg (· :: _) hfirst

/-- The rows that hang on a row come from the arrays among its entries. -/
theorem of_mem_ofEntries {y : Node} (hy : y ∈ (ofEntries s next uid entries).1) :
    y.cells.parent = .int uid ∧ ∃ items, .rows y.path items ∈ entries := by
  induction entries generalizing next with
  | nil =>
    rw [ofEntries] at hy
    cases hy
  | cons e rest ih =>
    cases e with
    | cell path type value =>
      rw [ofEntries] at hy
      obtain ⟨hparent, items, hitems⟩ := ih hy
      exact ⟨hparent, items, mem_cons_of_mem _ hitems⟩
    | rows path items =>
      rw [ofEntries] at hy
      rcases mem_append.1 hy with hy | hy
      · obtain ⟨rfl, hparent⟩ := (ofItems_spec items next uid path 0).1 y hy
        exact ⟨hparent, items, mem_cons_self⟩
      · obtain ⟨hparent, items', hitems⟩ := ih hy
        exact ⟨hparent, items', mem_cons_of_mem _ hitems⟩

theorem orders_ofEntries (hapart : (entries.map Entry.path).Nodup)
    {items : List (List Entry)} (hitems : .rows n items ∈ entries) (next : Counters) (uid : Int) :
    ((ofEntries s next uid entries).1.filter fun y => y.path == n).map (fun y => y.cells.order) =
      (List.range items.length).map Json.nat := by
  induction entries generalizing next with
  | nil => cases hitems
  | cons e rest ih =>
    obtain ⟨hfirst, hrest⟩ := nodup_cons.1 hapart
    cases e with
    | cell path type value =>
      rw [ofEntries]
      exact ih hrest ((mem_cons.1 hitems).resolve_left (by simp)) next
    | rows path others =>
      rw [ofEntries]
      rcases ofItems_spec (s := s) others next uid path 0 with ⟨hmade, horders⟩
      rw [filter_append, map_append]
      rcases mem_cons.1 hitems with heq | hitems
      · -- no later entry is at the path of this one
        obtain ⟨rfl, rfl⟩ := Entry.rows.inj heq
        rw [filter_eq_self.2 fun y hy => beq_iff_eq.2 (hmade y hy).1, horders,
          filter_eq_nil_iff.2, map_nil, append_nil, range_eq_range']
        intro y hy hpath
        obtain ⟨items', hmem⟩ := (of_mem_ofEntries hy).2
        rw [eq_of_beq hpath] at hmem
        exact hfirst (mem_map.2 ⟨_, hmem, rfl⟩)
      · have hne : path ≠ n := fun heq =>
          hfirst (mem_map.2 ⟨_, hitems, heq.symm⟩)
        rw [filter_eq_nil_iff.2 fun y hy hpath =>
          hne ((hmade y hy).1.symm.trans (eq_of_beq hpath)), map_nil, nil_append]
        exact ih hrest hitems _

variable (hs : s.ArraysOrdered)

include hs

theorem proper_mk {base : Cells} (hfit : Entry.FitRow s path entries) (hbase : Begins uid base)
    (hbelow : ∀ y ∈ (ofEntries s next uid entries).1, Proper s y) :
    Proper s (.mk path (entries.foldl (write s) base) (ofEntries s next uid entries).1) := by
  refine .mk uid ?_ (fun y hy => ?_) (fun y hy => (of_mem_ofEntries hy).1) (fun n hn hparent => ?_)
    hbelow
  · exact (foldl_write_reserved (by decide) entries base).trans hbase.uid
  · obtain ⟨items, hitems⟩ := (of_mem_ofEntries hy).2
    cases hfit.fit _ hitems with
    | rows known inside => exact ⟨known, inside⟩
  · -- the count is written where the array has items, and stays blank elsewhere
    by_cases hrows : ∃ items, .rows n items ∈ entries
    · obtain ⟨items, hitems⟩ := hrows
      refine ⟨items.length, orders_ofEntries hfit.apart hitems next uid, ?_⟩
      have hsome : items ≠ [] := by
        cases hfit.fit _ hitems with
        | rows known inside some => exact some
      rw [if_neg fun h => hsome (length_eq_zero_iff.1 h)]
      exact hfit.foldl_write hs hitems base
    · refine ⟨0, ?_, ?_⟩
      · rw [filter_eq_nil_iff.2]
        · rfl
        · intro y hy hpath
          exact hrows (eq_of_beq hpath ▸ (of_mem_ofEntries hy).2)
      · -- no other entry has the column of the count
        refine (foldl_write_of_ne ?_ base).trans (hbase.blank _ (Path.typed_not_reserved _ _))
        intro e he heq
        have hcount : Entry.Fits s path (.rows n [[]]) := .rows hn hparent (cons_ne_nil _ _)
            (fun item hitem => mem_singleton.1 hitem ▸ nodup_nil)
            (fun item hitem e he => absurd (mem_singleton.1 hitem ▸ he) not_mem_nil)
        have hlabel := (hfit.fit e he).label_eq hs hcount heq
        cases e with
        | cell p t v =>
          cases hfit.fit _ he with
          | cell canonical inside stored =>
            have htype : t.storage = .presence := congrArg Prod.snd hlabel
            rw [htype] at stored
            cases stored
        | rows p items =>
          have hpath : p = n := congrArg Prod.fst hlabel
          exact hrows ⟨items, hpath ▸ he⟩

theorem proper_ofEntries (entries : List Entry) (next : Counters) (uid : Int)
    (hfit : Entry.FitRow s home entries) : ∀ y ∈ (ofEntries s next uid entries).1, Proper s y := by
  induction next, uid, entries using ofEntries.induct s _
      (fun next parent path order items => (∀ item ∈ items, Entry.FitRow s path item) →
        ∀ y ∈ (ofItems s next parent path order items).1, Proper s y) generalizing home with
  | case1 next uid =>
    intro y hy
    rw [ofEntries] at hy
    cases hy
  | case2 next uid path type value rest ih =>
    intro y hy
    rw [ofEntries] at hy
    exact ih hfit.tail y hy
  | case3 next uid path items rest made ihitems =>
    intro y hy
    rename_i ih
    rw [ofEntries] at hy
    rcases mem_append.1 hy with hy | hy
    · exact ihitems (hfit.fit _ mem_cons_self).items y hy
    · exact ih hfit.tail y hy
  | case4 next parent path order _ y hy =>
    rw [ofItems] at hy
    cases hy
  | case5 next parent path order item rest below ihitem ih hfit y hy =>
    rw [ofItems] at hy
    rcases mem_cons.1 hy with rfl | hy
    · exact proper_mk hs (hfit item mem_cons_self) (begins_itemCells _ _ _)
        (ihitem (hfit item mem_cons_self))
    · exact ih (fun other hother => hfit other (.tail _ hother)) y hy

end

theorem rowsOf_append (as bs : List Node) :
    rowsOf (as ++ bs) = fun n => rowsOf as n ++ rowsOf bs n := by
  funext n
  rw [rowsOf, withinAll_append, map_append]
  rfl

theorem rowsOf_mk (path : Path) (cells : Cells) (children : List Node) (n : Path) :
    rowsOf [.mk path cells children] n = rowsOf children n ++ if path = n then [cells] else [] := by
  rw [rowsOf, withinAll, withinAll, append_nil, within, map_append]
  split <;> rfl

theorem mem_rowsOf_mk :
    r ∈ rowsOf [.mk path cells children] n ↔ r ∈ rowsOf children n ∨ path = n ∧ r = cells := by
  rw [rowsOf_mk, mem_append]
  refine or_congr_right ?_
  split
  next hn => rw [mem_singleton, and_iff_right hn]
  next hn => exact ⟨fun h => absurd h not_mem_nil, fun h => absurd h.1 hn⟩

section

open Counters

variable {s : Snowflake} (hs : s.ArraysOrdered)

include hs

/-- A tree takes the number of its root, and then those of what hangs on it. -/
theorem used_mk {next after : Counters}
    (hproper : Proper s (.mk path cells children)) (hpath : path.Canonical)
    (huid : cells.uid = .int (next path)) (hbelow : Used (next.bump path) after (rowsOf children)) :
    Used next after (rowsOf [.mk path cells children]) := by
  have hrows : rowsOf [.mk path cells children] = fun n =>
      (if path = n then [cells] else []) ++ rowsOf children n := by
    funext n
    rw [rowsOf_mk]
    by_cases hn : path = n
    · -- nothing of the array hangs on a row of the array
      have hnone : withinAll path children = [] := withinAll_children_eq_nil hs hproper hpath
      rw [if_pos hn, rowsOf, ← hn, hnone]
      rfl
    · rw [if_neg hn, append_nil, nil_append]
  rw [hrows]
  exact (used_bump huid).append hbelow

theorem used_ofEntries (entries : List Entry) (next : Counters) (uid : Int)
    (hfit : Entry.FitRow s home entries) :
    Used next (ofEntries s next uid entries).2 (rowsOf (ofEntries s next uid entries).1) := by
  induction next, uid, entries using ofEntries.induct s _
      (fun next parent path order items => path.Canonical →
        (∀ item ∈ items, Entry.FitRow s path item) →
        Used next (ofItems s next parent path order items).2
          (rowsOf (ofItems s next parent path order items).1)) generalizing home with
  | case1 next uid =>
    rw [ofEntries]
    exact used_nil next
  | case2 next uid path type value rest ih =>
    rw [ofEntries]
    exact ih hfit.tail
  | case3 next uid path items rest made ihitems =>
    rename_i ih
    have hpath : path.Canonical := ((hfit.fit _ mem_cons_self).isUnder hs).1
    rw [ofEntries, rowsOf_append]
    exact (ihitems hpath (hfit.fit _ mem_cons_self).items).append (ih hfit.tail)
  | case4 next parent path order =>
    rw [ofItems]
    exact used_nil next
  | case5 next parent path order item rest below ihitem ih hpath hfit =>
    have hitem := hfit item mem_cons_self
    rw [ofItems, ← singleton_append, rowsOf_append]
    refine (used_mk hs (proper_mk hs hitem (begins_itemCells _ _ _)
      (proper_ofEntries hs item _ _ hitem)) hpath ?_ (ihitem hitem)).append
      (ih hpath fun other hother => hfit other (.tail _ hother))
    exact (foldl_write_reserved (by decide) item _).trans (begins_itemCells _ _ _).uid

theorem fitRow_document {doc : Json} (hdoc : doc.Tidy) :
    Entry.FitRow s .root (ofJson s.isNested .root .root doc) :=
  (fitRow_ofJson hs .root .root doc Path.clean_root
    (.inl ⟨rfl, Snowflake.nestedPathOf_self hs (.inl rfl)⟩) hdoc).1

section

variable (docs : List (String × Json)) (hdocs : ∀ doc ∈ docs, doc.2.Tidy) (next : Counters)
include docs hdocs next

/-- The trees of documents are proper, and take numbers in order. -/
theorem used_ofDocuments :
    Used next (ofDocuments s next docs).2 (rowsOf (ofDocuments s next docs).1) ∧
      ∀ x ∈ (ofDocuments s next docs).1, Proper s x ∧ x.path = .root := by
  induction docs generalizing next with
  | nil => exact ⟨used_nil next, forall_mem_nil _⟩
  | cons doc rest ih =>
    obtain ⟨guid, doc⟩ := doc
    have hfit := fitRow_document hs (hdocs _ mem_cons_self)
    have hproper := proper_mk hs hfit (begins_documentCells (next .root) guid)
      (proper_ofEntries hs _ (next.bump .root) _ hfit)
    rcases ih (fun d hd => hdocs d (.tail _ hd)) (ofEntries s (next.bump .root)
      (next .root) (ofJson s.isNested .root .root doc)).2 with ⟨hused, hrest⟩
    rw [ofDocuments]
    refine ⟨?_, fun x hx => ?_⟩
    · rw [← singleton_append, rowsOf_append]
      refine (used_mk hs hproper Path.canonical_root ?_ (used_ofEntries hs _ _ _ hfit)).append hused
      exact (foldl_write_reserved (by decide) _ _).trans (begins_documentCells _ _).uid
    · rcases mem_cons.1 hx with rfl | hx
      · exact ⟨hproper, rfl⟩
      · exact hrest x hx

theorem sprouted_ofDocuments : Sprouted s (ofDocuments s next docs).1 := by
  obtain ⟨hused, hproper⟩ := used_ofDocuments hs docs hdocs next
  exact ⟨fun x hx => (hproper x hx).1, fun x hx => (hproper x hx).2, hused.unique⟩

end

end

end Node

end Snowbank
