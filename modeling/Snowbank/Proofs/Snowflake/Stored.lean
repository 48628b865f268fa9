import Snowbank.Proofs.Snowflake.Placement

/-!
# Stored Rows

What the changes of a catalog and the batches of rows do to stored tables. A
table that was never made has no rows and a column that was never added is
null, so making a table and adding a column change nothing; what changes stored
rows is that an array appears where single values are.

Rows belong together when every row of an array hangs on a row of what is around
it, and that row knows how many there are. That can be said of everything that
is stored, and also of the rows that one batch brings, since these hang on each
other only. Such rows can be put beside each other if their numbers differ.

## Main definitions

* `Stored`: A catalog with its rows.
* `WellFormed`: The stored rows belong together.
* `Closed`: The same of any rows, sorted by array.

## Theorems

* `Closed.wellFormed`: Closed rows of a catalog are well formed.
-/

namespace Snowbank

open List

theorem Json.int_beq_int (a b : Int) : (Json.int a == Json.int b) = (a == b) := rfl

/-- Of what belongs to several owners with different keys, what belongs to one of them. -/
theorem filter_flatMap_owner {α β κ : Type} {owners : List α} {key : α → κ} {items : α → List β}
    {owned : β → Bool} {x : α} (hkeys : (owners.map key).Nodup) (hx : x ∈ owners)
    (howned : ∀ y ∈ owners, ∀ b ∈ items y, (owned b ↔ key y = key x)) :
    (owners.flatMap items).filter owned = items x := by
  induction owners with
  | nil => cases hx
  | cons y rest ih =>
    obtain ⟨hfirst, hrest⟩ := nodup_cons.1 hkeys
    have hothers : ∀ z ∈ rest, ∀ b ∈ items z, (owned b ↔ key z = key x) := fun z hz =>
      howned z (.tail _ hz)
    rw [flatMap_cons, filter_append]
    by_cases hkey : key y = key x
    · -- the first is the owner, so no other is
      have hsame : y = x := by
        rcases mem_cons.1 hx with heq | hmem
        · exact heq.symm
        · exact absurd (hkey ▸ mem_map_of_mem hmem) hfirst
      rw [filter_eq_self.2 fun b hb => (howned y mem_cons_self b hb).2 hkey, hsame,
        filter_eq_nil_iff.2, append_nil]
      intro b hb hown
      obtain ⟨z, hz, hbz⟩ := mem_flatMap.1 hb
      refine hfirst ?_
      rw [hkey, ← (hothers z hz b hbz).1 hown]
      exact mem_map_of_mem hz
    · have hmem : x ∈ rest := (mem_cons.1 hx).resolve_left fun heq => hkey (heq ▸ rfl)
      rw [filter_eq_nil_iff.2 fun b hb hown =>
        hkey ((howned y mem_cons_self b hb).1 hown), nil_append]
      exact ih hrest hmem hothers

/-- A stored row: the value of every column, null where there is none. -/
abbrev Cells := String → Json

/-- The rows of every table. -/
abbrev Tables := String → List Cells

namespace Cells

/-- The number of a row. -/
def uid (r : Cells) : Json := r uidColumn

/-- The number of the row around it. -/
def parent (r : Cells) : Json := r parentColumn

/-- The position in its array. -/
def order (r : Cells) : Json := r orderColumn

def ofRow (row : Row) : Cells := fun column => (Ordered.get? column row).getD .null

/-- The item that takes the values which a row gives to a new array. -/
def item (moves : List ColumnMove) (r : Cells) : Cells := fun column =>
  if column = uidColumn ∨ column = parentColumn then r.uid
  else if column = orderColumn then .nat 0
  else match moves.find? fun m => m.target == column with
    | some m => r m.source
    | none => .null

/-- A row without the values that it has given to a new array. -/
def without (counter : String) (moves : List ColumnMove) (r : Cells) : Cells := fun column =>
  if column = counter then .nat 1
  else if moves.any fun m => m.source == column then .null else r column

end Cells

/-- A row has something for a new array: a value that moves, or rows in the
    table of an array that comes to lie in the new one. -/
def Tables.gives (tables : Tables) (moves : List ColumnMove) (reparent : List String)
    (r : Cells) : Bool :=
  (moves.any fun m => !(r m.source).isNull) ||
    reparent.any fun table => (tables table).any fun below => below.parent == r.uid

/-- What has to be done to the tables. -/
def SchemaChange.apply (tables : Tables) : SchemaChange → Tables
  | .create _ _ => tables
  | .add _ _ _ => tables
  | .nest parent child counter moves reparent => fun table =>
    if table = child then
      tables child ++ ((tables parent).filter (tables.gives moves reparent)).map (Cells.item moves)
    else if table = parent then
      (tables parent).map fun r =>
        if tables.gives moves reparent r then r.without counter moves else r
    else tables table

namespace Batch

/-- The rows of a batch, by column. -/
def cells (b : Batch) : List Cells :=
  b.rows.map fun values column => ((b.columns.zip values).lookup column).getD .null

/-- The tables with the rows of a batch. -/
def apply (tables : Tables) (b : Batch) : Tables := fun table =>
  if table = b.table then tables table ++ b.cells else tables table

end Batch

/-- The tables after documents have been stored. -/
def Shredded.apply (shredded : Shredded) (tables : Tables) : Tables :=
  shredded.batches.foldl Batch.apply (shredded.changes.foldl SchemaChange.apply tables)

/-- A catalog with its rows. -/
structure Stored where
  snowflake : Snowflake
  tables : Tables

namespace Stored

/-- Nothing is stored. -/
def empty (fact : String) : Stored := ⟨.empty fact, fun _ => []⟩

/-- The rows of an array, or of the documents. -/
def rowsAt (st : Stored) (path : Path) : List Cells := st.tables (st.snowflake.tableName path)

/-- Store documents, at a time. -/
def insert (st : Stored) (batch : Float × List (String × Json)) : Except SchemaError Stored :=
  match { st.snowflake with clock := batch.1 }.shred batch.2 with
  | (.error e, _) => .error e
  | (.ok shredded, snowflake) => .ok ⟨snowflake, shredded.apply st.tables⟩

/-- Every row has a number of its own in its table. Every row of an array hangs on a row of the
    array around it, and the rows that hang on a row stand in order and are counted there. -/
structure WellFormed (st : Stored) : Prop where
  numbered : ∀ table, ∀ r ∈ st.tables table, ∃ uid : Int, r.uid = .int uid
  unique : ∀ table, ((st.tables table).map Cells.uid).Nodup
  attached : ∀ n ∈ st.snowflake.nested, ∀ r ∈ st.rowsAt n,
    ∃ p ∈ st.rowsAt (st.snowflake.parentNestedPath n), r.parent = p.uid
  counted : ∀ n ∈ st.snowflake.nested, ∀ p ∈ st.rowsAt (st.snowflake.parentNestedPath n),
    ∃ (k : Nat) (counter : Column), st.snowflake.find? n .presence = some counter ∧
      ((st.rowsAt n).filter fun r => r.parent == p.uid).map Cells.order =
        (List.range k).map Json.nat ∧
      p counter.physical = if k = 0 then .null else .nat k

end Stored

/-- Rows by array. -/
abbrev RowsByPath := Path → List Cells

namespace Snowflake

def columnName (s : Snowflake) (path : Path) (type : DataType) : String :=
  (path.relativeTo (s.homeOf path type)).typed type

/-- The column that counts the rows of an array. -/
def counterName (s : Snowflake) (n : Path) : String := s.columnName n .presence

/-- Rows that hang on each other, and are counted where they hang. -/
structure Closed (s : Snowflake) (rows : RowsByPath) : Prop where
  numbered : ∀ n, ∀ r ∈ rows n, ∃ uid : Int, r.uid = .int uid
  unique : ∀ n, ((rows n).map Cells.uid).Nodup
  attached : ∀ n ∈ s.nested, ∀ r ∈ rows n, ∃ p ∈ rows (s.parentNestedPath n), r.parent = p.uid
  counted : ∀ n ∈ s.nested, ∀ p ∈ rows (s.parentNestedPath n), ∃ k : Nat,
    ((rows n).filter fun r => r.parent == p.uid).map Cells.order = (List.range k).map Json.nat ∧
      p (s.counterName n) = if k = 0 then .null else .nat k

section

variable {s : Snowflake} {rows more : RowsByPath}

theorem beq_uid {p q : Cells} (hp : ∃ uid : Int, p.uid = .int uid)
    (hq : ∃ uid : Int, q.uid = .int uid) :
    (p.uid == q.uid) ↔ p.uid = q.uid := by
  obtain ⟨a, ha⟩ := hp
  obtain ⟨b, hb⟩ := hq
  rw [ha, hb, Json.int_beq_int, beq_iff_eq]
  exact ⟨fun h => h ▸ rfl, fun h => Number.int.inj (Json.num.inj h)⟩

theorem Closed.filter_eq_nil (h : s.Closed rows) {n : Path} (hn : n ∈ s.nested) {p : Cells}
    (hp : ∃ uid : Int, p.uid = .int uid)
    (hapart : ∀ q ∈ rows (s.parentNestedPath n), q.uid ≠ p.uid) :
    ((rows n).filter fun r => r.parent == p.uid) = [] := by
  refine filter_eq_nil_iff.2 fun r hr hhangs => ?_
  obtain ⟨q, hq, hparent⟩ := h.attached n hn r hr
  rw [hparent] at hhangs
  exact hapart q hq ((beq_uid (h.numbered _ q hq) hp).1 hhangs)

theorem Closed.append (h : s.Closed rows) (hmore : s.Closed more)
    (hapart : ∀ n, ∀ r ∈ rows n, ∀ q ∈ more n, r.uid ≠ q.uid) :
    s.Closed fun n => rows n ++ more n where
  numbered := fun n r hr => (mem_append.1 hr).elim (h.numbered n r) (hmore.numbered n r)
  unique := by
    intro n
    rw [map_append]
    refine nodup_append.2 ⟨h.unique n, hmore.unique n, fun a ha b hb => ?_⟩
    obtain ⟨r, hr, rfl⟩ := mem_map.1 ha
    obtain ⟨q, hq, rfl⟩ := mem_map.1 hb
    exact hapart n r hr q hq
  attached := by
    intro n hn r hr
    rcases mem_append.1 hr with hr | hr
    · obtain ⟨p, hp, heq⟩ := h.attached n hn r hr
      exact ⟨p, mem_append_left _ hp, heq⟩
    · obtain ⟨p, hp, heq⟩ := hmore.attached n hn r hr
      exact ⟨p, mem_append_right _ hp, heq⟩
  counted := by
    intro n hn p hp
    rw [filter_append]
    rcases mem_append.1 hp with hp | hp
    · rw [hmore.filter_eq_nil hn (h.numbered _ p hp) fun q hq => (hapart _ p hp q hq).symm,
        append_nil]
      exact h.counted n hn p hp
    · rw [h.filter_eq_nil hn (hmore.numbered _ p hp) fun q hq => hapart _ q hq p hp, nil_append]
      exact hmore.counted n hn p hp

theorem Laid.find?_presence (hs : s.Laid) {n : Path} (hn : n ∈ s.nested) :
    ∃ counter, s.find? n .presence = some counter ∧ counter.physical = s.counterName n := by
  cases hfound : s.find? n .presence with
  | none => exact absurd ((hs.counted n).1 hn) (find?_eq_none_iff.1 hfound)
  | some counter =>
    obtain ⟨hmem, rfl, htype⟩ := of_find? hfound
    refine ⟨counter, rfl, ?_⟩
    rw [(hs.stands counter hmem).physical, htype]
    rfl

theorem Closed.wellFormed {st : Stored} (hs : st.snowflake.Laid)
    (hknown : ∀ table, st.tables table ≠ [] → ∃ n, table = st.snowflake.tableName n)
    (h : st.snowflake.Closed st.rowsAt) : st.WellFormed where
  numbered := by
    intro table r hr
    obtain ⟨n, rfl⟩ := hknown table (ne_nil_of_mem hr)
    exact h.numbered n r hr
  unique := by
    intro table
    by_cases hnil : st.tables table = []
    · rw [hnil]
      exact nodup_nil
    · obtain ⟨n, rfl⟩ := hknown table hnil
      exact h.unique n
  attached := h.attached
  counted := by
    intro n hn p hp
    obtain ⟨k, horders, hcount⟩ := h.counted n hn p hp
    obtain ⟨counter, hfound, hname⟩ := hs.find?_presence hn
    exact ⟨k, counter, hfound, horders, hname ▸ hcount⟩

end

end Snowflake

end Snowbank
