import Snowbank.Proofs.Snowflake.Shredding

/-!
# Stored Rows Stay Well Formed

Storing documents first makes the arrays that they need, which moves rows that
are stored already, and then adds the rows of the documents. The first keeps
stored rows sound, array by array. The second puts the rows of new trees beside
them, and these have numbers that were not used before: an item that was made
from a row has the number of that row, and the counter of its table goes on
from the counter of the table around it.

## Main definitions

* `Keeps`: Storing documents keeps a property, since each step does.

## Theorems

* `Sound.demanded`: The arrays that documents ask for are made.
* `Sound.insert`: Storing documents succeeds and keeps rows sound.
* `inserts_wellFormed`: However batches follow, the rows belong together.
-/

namespace Snowbank

open List Ordered Cells
open SchemaChange (apply)

section

variable {s : Snowflake} {table : String}

theorem lookup_zip_map (value : String → Json) (columns : List String) (column : String) :
    (columns.zip (columns.map value)).lookup column =
      if column ∈ columns then some (value column) else none := by
  induction columns with
  | nil => rfl
  | cons first rest ih =>
    rw [map_cons, zip_cons_cons, lookup_cons, ih]
    by_cases hfirst : column = first
    · rw [hfirst, beq_self_eq_true, if_pos mem_cons_self]
    · rw [beq_eq_false_iff_ne.2 hfirst]
      simp [hfirst]

theorem Snowflake.mem_columns_batch {column : String} {rows : List Row} {row : Row}
    (hrow : row ∈ rows) {value : Json} (hvalue : get? column row = some value) :
    column ∈ (s.batch table rows).columns := by
  by_cases hreserved : column ∈ s.reservedColumns table
  · exact mem_append_left _ hreserved
  · refine mem_append_right _ (mem_elems.2 (mem_filter.2 ⟨?_, ?_⟩))
    · exact mem_flatMap.2 ⟨row, hrow, mem_map.2 ⟨_, mem_of_get? hvalue, rfl⟩⟩
    · simpa using hreserved

theorem Snowflake.cells_batch (s : Snowflake) (table : String) (rows : List Row) :
    (s.batch table rows).cells = rows.map ofRow := by
  unfold Batch.cells
  rw [batch, map_map]
  refine map_congr_left fun row hrow => ?_
  funext column
  rw [Function.comp_apply, lookup_zip_map, ofRow]
  split
  · rfl
  next hnone =>
    cases hvalue : get? column row with
    | none => rfl
    | some value => exact absurd (mem_columns_batch hrow hvalue) hnone

/-- Batches for different tables add their rows to these. -/
theorem foldl_apply_filterMap (batchOf : String → Option Batch)
    (htable : ∀ table b, batchOf table = some b → b.table = table) {names : List String}
    (hnodup : names.Nodup) (tables : Tables) (table : String) :
    (names.filterMap batchOf).foldl Batch.apply tables table =
      tables table ++ if table ∈ names then ((batchOf table).map Batch.cells).getD [] else [] := by
  induction names generalizing tables with
  | nil => simp
  | cons name rest ih =>
    obtain ⟨hfirst, hrest⟩ := nodup_cons.1 hnodup
    cases hbatch : batchOf name with
    | none =>
      rw [filterMap_cons_none hbatch, ih hrest]
      by_cases hname : table = name
      · rw [hname, if_neg hfirst, if_pos mem_cons_self, hbatch]
        rfl
      · simp [hname]
    | some b =>
      rw [filterMap_cons_some hbatch, foldl_cons, ih hrest, Batch.apply, htable name b hbatch]
      by_cases hname : table = name
      · rw [hname, if_pos rfl, if_neg hfirst, if_pos mem_cons_self, hbatch, append_nil]
        rfl
      · simp [hname]

theorem Snowflake.mem_tables :
    table ∈ s.tables ↔ ∃ n, (n = .root ∨ n ∈ s.nested) ∧ table = s.tableName n := by
  unfold tables nestedPaths
  rw [mem_cons, mem_map]
  constructor
  · rintro (rfl | ⟨n, hn, rfl⟩)
    · exact ⟨.root, .inl rfl, rfl⟩
    · exact ⟨n, .inr ((perm_sortBy _).mem_iff.1 hn), rfl⟩
  · rintro ⟨n, rfl | hn, rfl⟩
    · exact .inl rfl
    · exact .inr ⟨n, (perm_sortBy _).mem_iff.2 hn, rfl⟩

theorem Snowflake.nodup_tables (hs : s.ArraysOrdered) : s.tables.Nodup := by
  refine nodup_cons.2 ⟨fun hmem => ?_, ?_⟩
  · obtain ⟨n, hn, heq⟩ := mem_map.1 hmem
    have hroot : n = .root := tableName_inj (s := s) (heq.trans rfl)
    exact hs.not_root (hroot ▸ (perm_sortBy _).mem_iff.1 hn)
  · have hnodup : (sortBy (fun a b : Path => a.depth ≤ b.depth) s.nested).Nodup :=
      (perm_sortBy _).nodup_iff.2 hs.increasing.nodup
    exact pairwise_map.2 (hnodup.imp fun hne heq => hne (tableName_inj heq))

theorem Snowflake.foldl_batches (hs : s.ArraysOrdered)
    (rows : List (String × List Row)) (tables : Tables) (table : String) :
    (s.batches rows).foldl Batch.apply tables table = tables table ++
      if table ∈ s.tables then ((get? table rows).getD []).map ofRow else [] := by
  unfold batches
  rw [foldl_apply_filterMap _ _ (nodup_tables hs)]
  · split
    · cases get? table rows with
      | none => rfl
      | some found => exact congrArg (tables table ++ ·) (cells_batch s table found)
    · rfl
  · intro name b hb
    obtain ⟨found, _, rfl⟩ := Option.map_eq_some_iff.1 hb
    rfl

end

theorem Snowflake.Closed.of_sameArrays {s s' : Snowflake} (h : s.SameArrays s') {rows : RowsByPath}
    (hclosed : s.Closed rows) : s'.Closed rows := by
  have hparent : ∀ n, s'.parentNestedPath n = s.parentNestedPath n := fun n => h.homeOf n .presence
  refine ⟨hclosed.numbered, hclosed.unique, fun n hn => ?_, fun n hn => ?_⟩
  · rw [hparent]
    exact hclosed.attached n (h.nested ▸ hn)
  · rw [hparent, counterName, h.columnName]
    exact hclosed.counted n (h.nested ▸ hn)

/-- When the arrays are there, the rows are made. -/
theorem Snowflake.shred_eq {s grown : Snowflake} {changes : List SchemaChange}
    {docs : List (String × Json)}
    {made : Shredding} (h : s.nestAll (demands (docs.map Prod.snd)) = (.ok changes, grown))
    (hmade : docs.foldl (fun st (guid, doc) => Shredding.document st guid doc)
      ⟨grown, changes, []⟩ = made) :
    s.shred docs = (.ok ⟨made.changes, made.snowflake.batches made.rows⟩, made.snowflake) := by
  rw [shred, h, ← hmade]

namespace Stored

open Snowflake

theorem sound_empty (fact : String) : (empty fact).Sound where
  laid := laid_empty fact
  known := fun _ h => absurd rfl h
  closed := ⟨fun _ _ h => absurd h not_mem_nil, fun _ => nodup_nil,
      forall_mem_nil _, forall_mem_nil _⟩
  used := fun _ _ h => absurd h not_mem_nil
  filled := fun _ _ h => absurd h not_mem_nil

theorem Sound.timed {st : Stored} (h : st.Sound) (clock : Float) :
    (⟨{ st.snowflake with clock }, st.tables⟩ : Stored).Sound where
  laid := h.laid.of_sameLayout ⟨rfl, rfl, rfl⟩
  known := h.known
  closed := ⟨h.closed.numbered, h.closed.unique, h.closed.attached, h.closed.counted⟩
  used := h.used
  filled := h.filled

section

variable {st : Stored} {begun made : Shredding} {forest : List Node}

/-- The catalog and the rows after the rows that were made have been added. -/
def withRows (st : Stored) (made : Shredding) : Stored :=
  ⟨made.snowflake, (made.snowflake.batches made.rows).foldl Batch.apply st.tables⟩

theorem rowsAt_withRows (hplanted : Shredding.Planted st.snowflake begun made forest)
    (hbegun : begun.rows = []) (hsprouted : Node.Sprouted st.snowflake forest) (n : Path) :
    (st.withRows made).rowsAt n = st.rowsAt n ++ Node.rowsOf forest n := by
  have harrays := hplanted.arrays
  have hadded : made.rowsAt st.snowflake n = Node.rowsOf forest n := by
    rw [hplanted.rows, Shredding.rowsAt, hbegun]
    rfl
  rw [Shredding.rowsAt] at hadded
  unfold rowsAt withRows
  dsimp only
  rw [foldl_batches harrays.laid.toArraysOrdered, harrays.tableName, hadded]
  by_cases hn : n = .root ∨ n ∈ st.snowflake.nested
  · have htable : st.snowflake.tableName n ∈ made.snowflake.tables :=
      mem_tables.2 ⟨n, harrays.nested ▸ hn, (harrays.tableName n).symm⟩
    rw [if_pos htable]
  · have hnone : Node.rowsOf forest n = [] :=
      eq_nil_iff_forall_not_mem.2 fun r hr => hn (hsprouted.known_of_mem hr)
    rw [hnone, ite_self]

/-- Trees with numbers that were not used before can be put beside sound rows. -/
theorem Sound.withRows (h : st.Sound) (hplanted : Shredding.Planted st.snowflake begun made forest)
    (hbegun : begun.rows = [])
    (hlabels : ∀ label ∈ st.snowflake.labels, label ∈ begun.snowflake.labels)
    (hsprouted : Node.Sprouted st.snowflake forest)
    (hused : Counters.Used st.snowflake.nextOf made.snowflake.nextOf (Node.rowsOf forest)) :
    (st.withRows made).Sound where
  laid := hplanted.arrays.laid
  known := by
    intro table htable
    by_cases hold : st.tables table = []
    · have hnew : table ∈ made.snowflake.tables := by
        refine Decidable.byContradiction fun hnone => htable ?_
        unfold Stored.withRows
        dsimp only
        rw [foldl_batches hplanted.arrays.laid.toArraysOrdered, if_neg hnone, hold, append_nil]
      exact mem_tables.1 hnew
    · obtain ⟨n, hn, htable⟩ := h.known table hold
      exact ⟨n, hplanted.arrays.nested ▸ hn, htable.trans (hplanted.arrays.tableName n).symm⟩
  -- the numbers of stored rows are below those of new ones
  closed := by
    refine Closed.of_sameArrays hplanted.arrays ?_
    rw [funext (rowsAt_withRows hplanted hbegun hsprouted)]
    refine h.closed.append (hsprouted.closed h.laid.toArraysOrdered) fun n r hr q hq heq => ?_
    obtain ⟨a, ha, hlt⟩ := h.used n r hr
    obtain ⟨b, hb, hle, _⟩ := hused.of_mem hq
    have hab : a = b := Number.int.inj (Json.num.inj (ha.symm.trans (heq.trans hb)))
    omega
  used := by
    intro n r hr
    rw [rowsAt_withRows hplanted hbegun hsprouted] at hr
    rcases mem_append.1 hr with hr | hr
    · obtain ⟨uid, huid, hlt⟩ := h.used n r hr
      exact ⟨uid, huid, Int.lt_of_lt_of_le hlt (hused.le n)⟩
    · obtain ⟨uid, huid, _, hlt⟩ := hused.of_mem hr
      exact ⟨uid, huid, hlt⟩
  filled := by
    intro n r hr
    rw [rowsAt_withRows hplanted hbegun hsprouted] at hr
    rcases mem_append.1 hr with hr | hr
    · exact (h.filled n r hr).mono ⟨h.laid, rfl, rfl⟩ hplanted.arrays fun label hlabel =>
        hplanted.labels label (hlabels label hlabel)
    · exact hplanted.holds n r hr

theorem foldl_added {added : List SchemaChange}
    (h : ∀ c ∈ added, ∃ table column type, c = .add table column type) (tables : Tables) :
    added.foldl apply tables = tables := by
  induction added with
  | nil => rfl
  | cons c rest ih =>
    obtain ⟨table, column, type, rfl⟩ := h c mem_cons_self
    exact ih fun c hc => h c (.tail _ hc)

end

/-- Storing documents of a kind keeps a property of what is stored, since each
    step does: setting the time, making an array and adding rows. -/
structure Keeps (D : Json → Prop) (P : Stored → Prop) : Prop where
  sound : ∀ {st : Stored}, P st → st.Sound
  timed : ∀ {st : Stored}, P st → ∀ clock : Float, P ⟨{ st.snowflake with clock }, st.tables⟩
  array : ∀ {st : Stored}, P st → ∀ {path : Path}, path.Canonical → path ≠ .root →
    path ∉ st.snowflake.nested → P (st.withArray path)
  rows : ∀ {st : Stored}, P st → ∀ {docs : List (String × Json)},
    (∀ doc ∈ docs, doc.2.Document ∧ D doc.2) → ∀ begun : Shredding, begun.snowflake = st.snowflake →
    begun.rows = [] → P (st.withRows (docs.foldl (fun made doc => made.document doc.1 doc.2) begun))

section

variable {D : Json → Prop} {P : Stored → Prop} (keeps : Keeps D P) {st : Stored}

include keeps

variable {docs : List (String × Json)}

theorem Keeps.nestAll (h : P st) {paths : List Path}
    (hpaths : ∀ p ∈ paths, p.Canonical ∧ p ≠ .root) :
    ∃ changes grown, st.snowflake.nestAll (paths.map .ok) = (.ok changes, grown) ∧
      P ⟨grown, changes.foldl apply st.tables⟩ ∧
      ∀ p, p ∈ grown.nested ↔ p ∈ st.snowflake.nested ∨ p ∈ paths := by
  induction paths generalizing st with
  | nil => exact ⟨[], st.snowflake, rfl, h, fun p => by rw [mem_nil_iff, or_false]⟩
  | cons path rest ih =>
    obtain ⟨hcanonical, hroot⟩ := hpaths path mem_cons_self
    have hrest : ∀ p ∈ rest, p.Canonical ∧ p ≠ .root := fun p hp =>
      hpaths p (.tail _ hp)
    have hnest := (keeps.sound h).laid.nest_eq path
    rw [if_neg hroot] at hnest
    rw [map_cons, Snowflake.nestAll]
    -- an array that is known already changes nothing
    by_cases hmem : path ∈ st.snowflake.nested
    · rw [if_pos hmem] at hnest
      obtain ⟨changes, grown, heq, hkept, hnested⟩ := ih h hrest
      refine ⟨changes, grown, by rw [hnest]; dsimp only; rw [heq]; rfl, hkept, fun p => ?_⟩
      rw [hnested, mem_cons, ← or_assoc]
      exact or_congr_left ⟨Or.inl, fun hp => hp.elim id fun heq => heq ▸ hmem⟩
    · rw [if_neg hmem] at hnest
      obtain ⟨changes, grown, heq, hkept, hnested⟩ := ih (keeps.array h hcanonical hroot hmem) hrest
      refine ⟨st.snowflake.arrayChanges path ++ changes, grown, ?_, ?_, fun p => ?_⟩
      · change (st.snowflake.withTable path).nestAll (rest.map .ok) = _ at heq
        rw [hnest]
        dsimp only
        rw [heq]
      · rw [foldl_append]
        exact hkept
      · have hold : p ∈ (st.withArray path).snowflake.nested ↔ p = path ∨ p ∈ st.snowflake.nested :=
          mem_nested_withTable
        rw [hnested, hold, mem_cons, or_assoc, or_left_comm]

/-- The arrays that documents ask for are made, and no others. -/
theorem Keeps.demanded (h : P st) (clock : Float) (hdocs : ∀ doc ∈ docs, doc.2.Document) :
    ∃ changes grown,
      { st.snowflake with clock }.nestAll (demands (docs.map Prod.snd)) = (.ok changes, grown) ∧
      P ⟨grown, changes.foldl apply st.tables⟩ ∧
      ∀ p, p ∈ grown.nested ↔ p ∈ st.snowflake.nested ∨ p ∈ arraysOf (docs.map Prod.snd) := by
  have hvalues : ∀ doc ∈ docs.map Prod.snd, doc.Document := forall_mem_map.2 hdocs
  rw [demands_eq fun doc hdoc => (hvalues doc hdoc).1]
  exact keeps.nestAll (keeps.timed h clock) (canonical_arraysOf hvalues)

theorem Keeps.insert (h : P st) (clock : Float) (hdocs : ∀ doc ∈ docs, doc.2.Document ∧ D doc.2) :
    ∃ stored, st.insert (clock, docs) = .ok stored ∧ P stored := by
  obtain ⟨changes, grown, hnested, hgrown, _⟩ :=
    keeps.demanded h clock fun doc hdoc => (hdocs doc hdoc).1
  have hlaid := (keeps.sound hgrown).laid
  have hmade := keeps.rows hgrown hdocs ⟨grown, changes, []⟩ rfl rfl
  -- only columns have been added on the way
  rcases (Shredding.planted_documents hlaid.toArraysOrdered docs
    (fun doc hdoc => (hdocs doc hdoc).1.2)
    ⟨grown, changes, []⟩ ⟨hlaid, rfl, rfl⟩).1.changes with ⟨added, hchanges, hadded⟩
  refine ⟨_, ?_, hmade⟩
  rw [Stored.insert, shred_eq hnested rfl]
  dsimp only [Shredded.apply]
  rw [hchanges, foldl_append, foldl_added hadded]
  rfl

end

theorem keeps_sound : Keeps (fun _ => True) Sound where
  sound := id
  timed := fun h clock => h.timed clock
  array := fun h _ hcanonical hroot hnew => Ready.withArray ⟨h, h.laid, hcanonical, hroot, hnew⟩
  rows := by
    rintro st h docs hdocs ⟨s, changes, rows⟩ hbegun hnone
    subst hbegun
    have hs := h.laid.toArraysOrdered
    have htidy : ∀ doc ∈ docs, doc.2.Tidy := fun doc hdoc => (hdocs doc hdoc).1.2
    rcases Shredding.planted_documents hs docs htidy ⟨st.snowflake, changes, rows⟩
      ⟨h.laid, rfl, rfl⟩ with ⟨hplanted, hnext⟩
    have hused := (Node.used_ofDocuments hs docs htidy st.snowflake.nextOf).1
    rw [← hnext] at hused
    exact h.withRows hplanted hnone (fun _ hlabel => hlabel)
      (Node.sprouted_ofDocuments hs docs htidy _) hused

section

variable {st : Stored}

variable {docs : List (String × Json)}

section

variable (h : st.Sound) (clock : Float) (hdocs : ∀ doc ∈ docs, doc.2.Document)
include h clock hdocs

theorem Sound.demanded : ∃ changes grown,
      { st.snowflake with clock }.nestAll (demands (docs.map Prod.snd)) = (.ok changes, grown) ∧
      (⟨grown, changes.foldl apply st.tables⟩ : Stored).Sound ∧
      ∀ p, p ∈ grown.nested ↔ p ∈ st.snowflake.nested ∨ p ∈ arraysOf (docs.map Prod.snd) :=
  keeps_sound.demanded h clock hdocs

theorem Sound.insert : ∃ stored, st.insert (clock, docs) = .ok stored ∧ stored.Sound :=
  keeps_sound.insert h clock fun doc hdoc => ⟨hdocs doc hdoc, trivial⟩

end

/-- However batches of documents follow each other, storing them succeeds and the rows belong
    together: every row of an array hangs on a row of the array around it, which counts it, whether
    the arrays of a batch appear above, below or between those of the batches before. -/
theorem inserts_wellFormed (fact : String) {batches : List (Float × List (String × Json))}
    (hbatches : ∀ batch ∈ batches, ∀ doc ∈ batch.2, doc.2.Document) :
    ∃ stored, batches.foldlM Stored.insert (Stored.empty fact) = .ok stored ∧
    stored.WellFormed := by
  suffices hrun : ∀ st : Stored, st.Sound →
      ∃ stored, batches.foldlM Stored.insert st = .ok stored ∧ stored.Sound by
    rcases hrun _ (sound_empty fact) with ⟨stored, hstored, hsound⟩
    exact ⟨stored, hstored, hsound.wellFormed⟩
  induction batches with
  | nil => exact fun st h => ⟨st, rfl, h⟩
  | cons batch rest ih =>
    intro st h
    rcases h.insert batch.1 (hbatches batch List.mem_cons_self) with ⟨next, hnext, hsound⟩
    rcases ih (fun b hb => hbatches b (List.mem_cons_of_mem _ hb)) next
      hsound with ⟨stored, hrun, hend⟩
    refine ⟨stored, ?_, hend⟩
    rw [List.foldlM_cons, hnext]
    exact hrun

/-- Batches that store an array first, then one around it and at last one between the two. -/
def surrounding : List (Float × List (String × Json)) :=
  [(1.0, [("x",
    .obj [("a", .obj [("b", .obj [("c", .arr [.obj [("d", .nat 1)], .obj [("d", .str "e")]])]),
        ("f", .nat 2)])]), ("y", .obj [("a", .obj [("f", .null)])])]),
    (2.0, [("z", .obj [("a", .arr [.obj [("f", .nat 3)], .null, .nat 4])])]),
    (3.0, [("x", .obj [("a", .obj [("b", .arr [.obj [("c", .nat 5)]])])])])]

theorem inserts_wellFormed_surrounding :
    (∀ batch ∈ surrounding, ∀ doc ∈ batch.2, doc.2.Document) ∧
      ∃ stored, surrounding.foldlM Stored.insert (Stored.empty "t") = .ok stored ∧
        stored.WellFormed := by
  have hdocs : ∀ batch ∈ surrounding, ∀ doc ∈ batch.2, doc.2.Document := by
    decide +kernel
  exact ⟨hdocs, inserts_wellFormed "t" hdocs⟩

end

end Stored

end Snowbank
