import Snowbank.Proofs.Store.Insert
import Snowbank.Proofs.Store.Schema

/-!
# The Store Stays in Step

Whatever documents are inserted, and in whatever order arrays appear in them,
the statements of every insertion work on the store that those before have
left, and after each the store has the tables and the columns of the catalog.

Making the rows of documents may add columns as it goes, so the store is
followed along. The statements of an insertion are in another order, first all
tables and columns and the rows only then, but by then nothing has been taken
away.

## Main definitions

* `Backed`: A store follows the making of rows.
* `Covers`: A store has the tables and columns of a catalog.

## Theorems

* `inserts_covered`: All statements work, and the store covers the catalog.
-/

namespace Snowbank

open List Insertion Ordered Snowflake Shredding Statement Bool Option

namespace StoreSchema

open Snowflake

theorem InStep.nestAll {schema : StoreSchema} {s : Snowflake} (h : schema.InStep s) (hs : s.Laid)
    {paths : List Path} (hpaths : ∀ p ∈ paths, p.Canonical ∧ p ≠ .root) :
    ∃ changes grown schema', s.nestAll (paths.map .ok) = (.ok changes, grown) ∧ grown.Laid ∧
      schema.Makes changes schema' ∧ schema'.InStep grown := by
  induction paths generalizing schema s with
  | nil => exact ⟨[], s, schema, rfl, hs, makes_nil schema, h⟩
  | cons path rest ih =>
    obtain ⟨hpath, hroot⟩ := hpaths path mem_cons_self
    have hrest : ∀ p ∈ rest, p.Canonical ∧ p ≠ .root := fun p hp =>
      hpaths p (.tail _ hp)
    have hnest := hs.nest_eq path
    rw [if_neg hroot] at hnest
    rw [map_cons, Snowflake.nestAll, hnest]
    by_cases hmem : path ∈ s.nested
    · rw [if_pos hmem]
      obtain ⟨changes, grown, schema', heq, hlaid, hmakes, hstep⟩ := ih h hs hrest
      refine ⟨changes, grown, schema', ?_, hlaid, hmakes, hstep⟩
      dsimp only
      rw [heq]
      rfl
    · rw [if_neg hmem]
      obtain ⟨made, hmade, hmadeStep⟩ := h.withTable ⟨hs, hpath, hroot, hmem⟩
      obtain ⟨changes, grown, schema', heq, hlaid, hmakes, hstep⟩ :=
        ih hmadeStep (hs.withTable hpath hroot hmem) hrest
      refine ⟨_, grown, schema', ?_, hlaid, hmade.append hmakes, hstep⟩
      dsimp only
      rw [heq]

end StoreSchema

namespace Shredding

/-- A store that was `base` follows the making of rows: the changes so far can
    be made, and the rows have columns of their tables. -/
structure Backed (s : Snowflake) (base : StoreSchema) (st : Shredding) (schema : StoreSchema) :
    Prop where
  arrays : s.SameArrays st.snowflake
  makes : base.Makes st.changes schema
  inStep : schema.InStep st.snowflake
  rows : ∀ entry ∈ st.rows, ∀ row ∈ entry.2, schema.Knows (entry.1, row.map Prod.fst)

section

variable {s : Snowflake} {base schema : StoreSchema} {st st' : Shredding}

variable {table : String} {row : Row}

theorem Backed.of_sameLayout {s' : Snowflake} (h : st.Backed s base schema)
    (hsame : Snowflake.SameLayout st.snowflake s') :
    Backed s base { st with snowflake := s' } schema where
  arrays := h.arrays.of_sameLayout hsame
  makes := h.makes
  inStep := h.inStep.of_sameLayout h.arrays.laid hsame
  rows := h.rows

section

variable (h : st.Backed s base schema)
include h

theorem Backed.push (hrow : schema.Knows (table, row.map Prod.fst)) :
    (st.push table row).Backed s base schema where
  arrays := h.arrays
  makes := h.makes
  inStep := h.inStep
  rows := by
    intro entry hentry other hother
    rcases mem_insert hentry with rfl | hentry
    · rcases mem_append.1 hother with hother | hother
      · cases hfound : Ordered.get? table st.rows with
        | none =>
          rw [hfound] at hother
          cases hother
        | some found =>
          rw [hfound] at hother
          exact h.rows _ (mem_of_get? hfound) other hother
      · rw [mem_singleton.1 hother]
        exact hrow
    · exact h.rows entry hentry other hother

/-- A value goes into a column that the store has, or gets for it. -/
theorem backed_store {path : Path} {type : DataType}
    (hpath : path.Canonical) (htype : type.storage ≠ .nested)
    (houtside : type.storage.isOutside → path ∈ s.nested) {row' : Row} {value : Json}
    (hstore : st.store row path type value = (st', row'))
    (hrow : schema.Knows (s.tableName (s.homeOf path type.storage), row.map Prod.fst)) :
    ∃ schema', st'.Backed s base schema' ∧ schema.Within schema' ∧
      schema'.Knows (s.tableName (s.homeOf path type.storage), row'.map Prod.fst) := by
  have hstored := planted_store h.arrays hpath htype houtside hstore
  have houtside' : type.storage.isOutside → path ∈ st.snowflake.nested := fun hout =>
    h.arrays.nested.symm ▸ houtside hout
  have hname := h.arrays.laid.physical_ensureColumn htype houtside'
  obtain ⟨schema', hmakes, hstep⟩ :=
    h.inStep.ensureColumn h.arrays.laid hpath type.storage_storage htype houtside'
  have hlabel := (labels_ensureColumn st.snowflake path type.storage).1
  unfold store at hstore
  dsimp only at hstore
  obtain ⟨rfl, rfl⟩ := Prod.mk.inj hstore
  refine ⟨schema', ⟨hstored.1.arrays, h.makes.append hmakes, hstep, fun entry hentry r hr =>
    hmakes.within _ (h.rows entry hentry r hr)⟩, hmakes.within, (hmakes.within _ hrow).1, ?_⟩
  refine forall_mem_map.2 fun cell hcell => ?_
  rcases mem_insert hcell with rfl | hcell
  · have hcell := hstep.cells _ _ ⟨path, type.storage, hlabel, htype, rfl, rfl⟩
    rw [hname, h.arrays.columnName]
    have harrays := hstored.1.arrays
    rw [harrays.tableName, harrays.homeOf, harrays.columnName] at hcell
    exact hcell
  · exact (hmakes.within _ hrow).2 _ (mem_map_of_mem hcell)

/-- Rows begin with columns that their table has from the start. -/
theorem Backed.knows_first {n : Path} (hn : n = .root ∨ n ∈ s.nested) :
    schema.Knows (s.tableName n, s.reservedColumns (s.tableName n)) := by
  have hknown := h.inStep.present n (h.arrays.nested.symm ▸ hn)
  rw [reservedColumns_tableName, h.arrays.tableName] at hknown
  rw [reservedColumns_tableName]
  exact hknown

end

theorem knows_ofList {cells : List (String × Json)} (h : schema.Knows (table, cells.map Prod.fst)) :
    schema.Knows (table, (ofList cells).map Prod.fst) := by
  refine ⟨h.1, fun column hcolumn => h.2 column ?_⟩
  obtain ⟨cell, hcell, rfl⟩ := mem_map.1 hcolumn
  exact mem_map_of_mem ((mem_foldl_insert hcell).resolve_right not_mem_nil)

end

section

variable {s : Snowflake} {base : StoreSchema}

variable {schema : StoreSchema}

/-- Storing what a row holds keeps the store in step, and the row has columns of its table. -/
theorem backed_entries (hs : s.ArraysOrdered) (st : Shredding) (uid : Int) (row : Row)
    (entries : List Entry) (h : st.Backed s base schema) {home : Path}
    (hfit : ∀ e ∈ entries, Entry.Fits s home e)
    (hrow : schema.Knows (s.tableName home, row.map Prod.fst)) :
    ∃ schema', (st.entries uid row entries).1.Backed s base schema' ∧ schema.Within schema' ∧
      schema'.Knows (s.tableName home, (st.entries uid row entries).2.map Prod.fst) := by
  induction st, uid, row, entries using Shredding.entries.induct _
      (fun st parent path order items => ∀ schema, st.Backed s base schema → path ∈ s.nested →
        (∀ item ∈ items, ∀ e ∈ item, Entry.Fits s path e) →
        ∃ schema', (st.children parent path order items).Backed s base schema' ∧
          schema.Within schema') generalizing schema home with
  | case1 st uid row =>
    rw [entries]
    exact ⟨schema, h, fun _ hknown => hknown, hrow⟩
  -- the column of a value is in the table of the row
  | case2 st uid row path type value rest st' row' hstored ih =>
    cases hfit _ mem_cons_self with
    | cell canonical inside stored present =>
      have htype : type.storage ≠ .nested := fun heq => by
        rw [heq] at stored
        cases stored
      have hhome : s.homeOf path type.storage = home := (hfit _ mem_cons_self).home_label
      rw [← hhome] at hrow
      obtain ⟨mid, hmid, hgrows, hrow'⟩ :=
        backed_store h canonical htype (fun hout => by rw [stored] at hout; cases hout) hstored hrow
      rw [hhome] at hrow'
      obtain ⟨schema', hend, hmore, hlast⟩ := ih hmid (fun e he => hfit e (.tail _ he)) hrow'
      rw [entries, hstored]
      exact ⟨schema', hend, fun m hm => hmore m (hgrows m hm), hlast⟩
  -- the count is in the table of the row, what hangs on it in another
  | case3 st uid row path items rest st' row' hstored observed hitems =>
    rename_i ih
    have hfits := hfit _ mem_cons_self
    cases hfits with
    | rows known inside some apart fit =>
      have hhome : s.homeOf path DataType.presence.storage = home := inside
      rw [← hhome] at hrow
      obtain ⟨mid, hmid, hgrows, hrow'⟩ :=
        backed_store h (hs.canonical path known) (by decide) (fun _ => known) hstored hrow
      rw [hhome] at hrow'
      have hobserved := hmid.of_sameLayout
        (hmid.arrays.laid.sameLayout_observeLength path items.length)
      obtain ⟨below, hbelow, hgrows'⟩ := hitems mid hobserved known fit
      obtain ⟨schema', hend, hmore, hlast⟩ :=
        ih hbelow (fun e he => hfit e (.tail _ he)) (hgrows' _ hrow')
      rw [entries, hstored]
      exact ⟨schema', hend, fun m hm => hmore m (hgrows' m (hgrows m hm)), hlast⟩
  | case4 st parent path order schema h =>
    rw [children]
    exact ⟨schema, h, fun _ hknown => hknown⟩
  -- a row begins with the columns that its table was made with
  | case5 st parent path order item rest table uid s' htaken row st' row' hitem hrow ih schema
    h known hfit =>
    have htable : table = s.tableName path := h.arrays.tableName path
    have htook : Backed s base { st with snowflake := s' } schema := by
      refine h.of_sameLayout ?_
      have hsame : Snowflake.SameLayout st.snowflake (st.snowflake.takeUid table).2 :=
        ⟨rfl, rfl, rfl⟩
      rw [htaken] at hsame
      exact hsame
    have hfirst := htook.knows_first (.inr known)
    rw [reservedColumns_tableName, if_neg fun heq : path = .root =>
      hs.not_root (heq ▸ known)] at hfirst
    obtain ⟨mid, hmid, hgrows, hlast⟩ := hrow htook (hfit item mem_cons_self) (knows_ofList hfirst)
    rw [hitem] at hmid hlast
    rw [← htable] at hlast
    obtain ⟨schema', hend, hmore⟩ :=
      ih mid (hmid.push hlast) known (fun other hother => hfit other (.tail _ hother))
    rw [children, htaken]
    dsimp only
    rw [hitem]
    exact ⟨schema', hend, fun m hm => hmore m (hgrows m hm)⟩

theorem backed_documents (hs : s.ArraysOrdered) (docs : List (String × Json))
    (hdocs : ∀ doc ∈ docs, doc.2.Tidy) (st : Shredding) (h : st.Backed s base schema) :
    ∃ schema', (docs.foldl (fun st (guid, doc) => st.document guid doc) st).Backed
      s base schema' := by
  induction docs generalizing st schema with
  | nil => exact ⟨schema, h⟩
  | cons doc rest ih =>
    obtain ⟨guid, doc⟩ := doc
    have htook : Backed s base { st with snowflake := (st.snowflake.takeUid st.snowflake.fact).2 }
        schema := h.of_sameLayout ⟨rfl, rfl, rfl⟩
    have hfirst := htook.knows_first (.inl rfl)
    rw [reservedColumns_tableName, if_pos rfl] at hfirst
    have hfit := (Node.fitRow_document hs (hdocs _ mem_cons_self)).fit
    rw [← htook.arrays.isNested] at hfit
    rcases backed_entries hs _ (st.snowflake.takeUid st.snowflake.fact).1
      (ofList [(uidColumn, .int (st.snowflake.takeUid st.snowflake.fact).1),
        (guidColumn, .str guid)]) _ htook hfit (knows_ofList hfirst) with ⟨mid, hmid, _, hrow⟩
    rw [show s.tableName .root = st.snowflake.fact from h.arrays.fact.symm] at hrow
    exact ih (fun d hd => hdocs d (.tail _ hd)) _ (hmid.push hrow)

end

end Shredding

namespace StoreSchema

open Snowflake

variable {schema schema' : StoreSchema} {s : Snowflake}

theorem run_batches {base : StoreSchema} {made : Shredding} (h : made.Backed s base schema) :
    schema.run ((made.snowflake.batches made.rows).flatMap Batch.statements) = some schema := by
  have hbatch : ∀ b ∈ made.snowflake.batches made.rows, schema.Knows (b.table, b.columns) := by
    intro b hb
    obtain ⟨table, htable, hb⟩ := mem_filterMap.1 hb
    obtain ⟨rows, hrows, rfl⟩ := map_eq_some_iff.1 hb
    obtain ⟨n, hn, rfl⟩ := mem_tables.1 htable
    have hreserved := h.inStep.present n hn
    refine ⟨hreserved.1, fun column hcolumn => ?_⟩
    rcases mem_append.1 hcolumn with hcolumn | hcolumn
    · exact hreserved.2 column hcolumn
    · have hused := (mem_filter.1 (mem_elems.1 hcolumn)).1
      obtain ⟨row, hrow, hcolumn⟩ := mem_flatMap.1 hused
      exact (h.rows _ (mem_of_get? hrows) row hrow).2 column hcolumn
  have hinsert : ∀ st ∈ (made.snowflake.batches made.rows).flatMap Batch.statements,
      ∃ b ∈ made.snowflake.batches made.rows, ∃ rows, st = .insertRows b.table b.columns rows := by
    intro st hst
    obtain ⟨b, hb, hst⟩ := mem_flatMap.1 hst
    unfold Batch.statements at hst
    split at hst
    · cases hst
    · obtain ⟨rows, _, rfl⟩ := mem_map.1 hst
      exact ⟨b, hb, rows, rfl⟩
  refine run_onlyRows (fun st hst => ?_) fun st hst => ?_
  · obtain ⟨b, _, rows, rfl⟩ := hinsert st hst
    exact fun _ => rfl
  · obtain ⟨b, hb, rows, rfl⟩ := hinsert st hst
    exact forall_mem_singleton.2 (hbatch b hb)

/-- The statements for documents work, and the store is in step then. -/
theorem InStep.shred (h : schema.InStep s) (hs : s.Laid) {docs : List (String × Json)}
    (hdocs : ∀ doc ∈ docs, doc.2.Document) : ∃ shredded grown schema',
      s.shred docs = (.ok shredded, grown) ∧ grown.Laid ∧ schema.Makes shredded.changes schema' ∧
        schema'.run (shredded.batches.flatMap Batch.statements) = some schema' ∧
        schema'.InStep grown := by
  have hvalues : ∀ doc ∈ docs.map Prod.snd, doc.Document := forall_mem_map.2 hdocs
  obtain ⟨changes, grown, mid, hnested, hlaid, hmakes, hstep⟩ :=
    h.nestAll hs (canonical_arraysOf hvalues)
  rw [← demands_eq fun doc hdoc => (hvalues doc hdoc).1] at hnested
  have hbegun : Shredding.Backed grown schema ⟨grown, changes, []⟩ mid :=
    ⟨⟨hlaid, rfl, rfl⟩, hmakes, hstep, forall_mem_nil _⟩
  obtain ⟨schema', hmade⟩ :=
    backed_documents hlaid.toArraysOrdered docs (fun doc hdoc => (hdocs doc hdoc).2) _ hbegun
  exact ⟨_, _, schema', shred_eq hnested rfl, hmade.arrays.laid, hmade.makes, run_batches hmade,
    hmade.inStep⟩

theorem makes_create (fact : String) : ∃ schema, empty.Makes [.create fact none] schema ∧
    schema.InStep (Snowflake.empty fact) := by
  have hnone : ¬empty.HasTable fact := false_ne_true
  have hcolumns : ∀ n column, column ∈ (empty.put fact (reservedColumns none).toFinset).columnsOf
      ((Snowflake.empty fact).tableName n) → column ∈ reservedNames := by
    intro n column hcolumn
    rw [columnsOf_put] at hcolumn
    split at hcolumn
    · have hall : ∀ name ∈ reservedColumns none, name ∈ reservedNames := by decide
      exact hall column (mem_toFinset.1 hcolumn)
    · exact absurd hcolumn (Finset.notMem_empty _)
  refine ⟨empty.put fact (reservedColumns none).toFinset, ⟨?_, ?_⟩, ?_, ?_, ?_, ?_⟩
  · change run _ [.createTable fact none] = _
    rw [run_cons, execute_createTable hnone]
    rfl
  · intro change hchange st hst
    rw [mem_singleton.1 hchange] at hst
    cases hst
  · intro n hn
    rcases hn with rfl | hn
    · refine ⟨hasTable_put.2 (.inl rfl), fun column hcolumn => ?_⟩
      rw [reservedColumns_tableName, if_pos rfl] at hcolumn
      change column ∈ columnsOf _ fact
      rw [columnsOf_put, if_pos rfl]
      exact mem_toFinset.2 hcolumn
    · cases hn
  · rintro n column ⟨p, t, hlabel, _⟩
    cases hlabel
  · intro n hroot _ htable
    rcases hasTable_put.1 htable with heq | htable
    · exact hroot (tableName_inj (s := Snowflake.empty fact) heq)
    · exact false_ne_true htable
  · exact fun n column hcolumn => .inl (hcolumns n column hcolumn)

/-- A store has the tables of a catalog, and in each of them the columns that
    the catalog has there. -/
structure Covers (schema : StoreSchema) (s : Snowflake) : Prop where
  tables : ∀ table ∈ s.tables, schema.HasTable table
  columns : ∀ c ∈ s.columns, c.isPhysical → c.physical ∈ schema.columnsOf c.table

theorem InStep.covers (h : schema.InStep s) (hs : s.Laid) : schema.Covers s where
  tables := by
    intro table htable
    obtain ⟨n, hn, rfl⟩ := mem_tables.1 htable
    exact (h.present n hn).1
  columns := by
    intro c hc hphysical
    have hne : c.type ≠ .nested := bne_iff_ne.1 hphysical
    rw [(hs.stands c hc).physical, (hs.stands c hc).table, physicalName_eq, if_neg hne]
    exact h.cells _ _ ⟨c.name, c.type, mem_labels.2 ⟨c, hc, rfl, rfl⟩, hne, rfl, rfl⟩

end StoreSchema

/-- Arrays are made for objects only. -/
theorem Snowflake.isObj_of_nestAll {s grown : Snowflake} {docs : List Json}
    {changes : List SchemaChange} (h : s.nestAll (demands docs) = (.ok changes, grown)) :
    ∀ doc ∈ docs, doc.isObj := by
  -- making arrays stops at the first demand that is an error
  have hok : ∀ (demanded : List (Except SchemaError Path)) (s : Snowflake) (e : SchemaError),
      .error e ∈ demanded → ∃ e', (s.nestAll demanded).1 = .error e' := by
    intro demanded
    induction demanded with
    | nil => exact fun _ _ hmem => absurd hmem not_mem_nil
    | cons demand rest ih =>
      intro s e hmem
      cases demand with
      | error e' => exact ⟨e', rfl⟩
      | ok path =>
        have hrest : .error e ∈ rest := (mem_cons.1 hmem).resolve_left (by simp)
        rw [nestAll]
        cases s.nest path with
        | error e' => exact ⟨e', rfl⟩
        | ok made =>
          obtain ⟨e', he'⟩ := ih made.2 e hrest
          refine ⟨e', ?_⟩
          dsimp only
          split
          next heq =>
            rw [heq] at he'
            cases he'
          next heq =>
            rw [heq] at he'
            exact he'
  -- what is no object demands an error
  have hdemand : ∀ docs : List Json, (∃ doc ∈ docs, doc.isObj = false) →
      ∃ e, .error e ∈ demands docs := by
    intro docs
    induction docs with
    | nil =>
      rintro ⟨_, hmem, _⟩
      cases hmem
    | cons doc rest ih =>
      rintro ⟨other, hother, hnot⟩
      cases doc with
      | obj fields =>
        rcases mem_cons.1 hother with rfl | hother
        · cases hnot
        · rcases ih ⟨other, hother, hnot⟩ with ⟨e, he⟩
          exact ⟨e, mem_append_right _ he⟩
      | _ => exact ⟨_, mem_cons_self⟩
  intro doc hdoc
  by_contra hnot
  rcases hdemand docs ⟨doc, hdoc, eq_false_iff.2 hnot⟩ with ⟨e, he⟩
  obtain ⟨e', he'⟩ := hok _ s e he
  rw [h] at he'
  cases he'

/-- A catalog, and the tables of its store. -/
structure Deployment where
  catalog : Catalog
  schema : StoreSchema

namespace Deployment

/-- Nothing has been inserted yet. -/
def empty : Deployment := ⟨.empty, .empty⟩

/-- What inserting documents into a fact makes of a catalog and of the tables of its store, if all
    statements work. An insertion that is refused changes nothing. -/
def insert (fact : String) (d : Deployment)
    (batch : TransactionId × Float × List (String × Json)) : Option Deployment :=
  match prepare d.catalog batch.2.1 fact batch.2.2 batch.1 with
  | .error _ => some d
  | .ok insertion => (d.schema.run insertion.statements).map fun schema =>
    ⟨d.catalog.publish insertion.snowflake, schema⟩

/-- The store of a deployment has what the catalog says of a fact. -/
structure InStep (fact : String) (d : Deployment) : Prop where
  named : d.catalog.Named
  known : ∀ s, d.catalog.snapshot? fact = some s → s.Laid ∧ d.schema.InStep s
  unknown : d.catalog.snapshot? fact = none → d.schema = .empty

section

variable {fact : String} {d : Deployment}

theorem inStep_empty (fact : String) : empty.InStep fact where
  named := fun _ _ h => nomatch h
  known := fun _ h => nomatch h
  unknown := fun _ => rfl

/-- An insertion starts with a catalog that the store is in step with, when the
    fact has been created. -/
theorem InStep.begins (h : d.InStep fact) (clock : Float) :
    (d.catalog.startOf clock fact).Laid ∧ ∃ schema,
      d.schema.Makes (d.catalog.createdFor fact) schema ∧
        schema.InStep (d.catalog.startOf clock fact) := by
  unfold Catalog.startOf Catalog.createdFor
  cases hfound : d.catalog.snapshot? fact with
  | none =>
    have hlaid := laid_empty fact
    obtain ⟨schema, hmakes, hstep⟩ := StoreSchema.makes_create fact
    rw [h.unknown hfound]
    exact ⟨hlaid.of_sameLayout ⟨rfl, rfl, rfl⟩, schema, hmakes,
      hstep.of_sameLayout hlaid ⟨rfl, rfl, rfl⟩⟩
  | some s =>
    obtain ⟨hlaid, hstep⟩ := h.known s hfound
    exact ⟨hlaid.of_sameLayout ⟨rfl, rfl, rfl⟩, d.schema, StoreSchema.makes_nil _,
      hstep.of_sameLayout hlaid ⟨rfl, rfl, rfl⟩⟩

/-- All statements of an insertion work, and the store is in step then. -/
theorem InStep.insert (h : d.InStep fact) (batch : TransactionId × Float × List (String × Json))
    (hdocs : ∀ doc ∈ batch.2.2, doc.2.Tidy) : ∃ d', d.insert fact batch = some d' ∧ d'.InStep fact ∧
      ((∀ doc ∈ batch.2.2, doc.2.isObj) ∨ (d.catalog.snapshot? fact).isSome →
        (d'.catalog.snapshot? fact).isSome) := by
  obtain ⟨transaction, clock, docs⟩ := batch
  obtain ⟨hlaid, begun, hcreated, hbegun⟩ := h.begins clock
  have hfact : (d.catalog.startOf clock fact).fact = fact := Catalog.fact_startOf h.named
  unfold Deployment.insert
  rw [prepare_eq]
  by_cases hobj : ∀ doc ∈ docs, doc.2.isObj
  · rcases hbegun.shred hlaid fun doc hdoc => ⟨hobj doc hdoc, hdocs doc hdoc⟩ with
      ⟨shredded, grown, schema, hshred, hgrown, hmakes, hrows, hstep⟩
    have hgrownFact : grown.fact = fact := by
      have hkept := fact_shred (d.catalog.startOf clock fact) docs
      rw [hshred] at hkept
      exact hkept.trans hfact
    -- tables and columns come first, then the rows that move, then new ones
    have hrun : d.schema.run (statementsOf (d.catalog.createdFor fact ++ shredded.changes)
        shredded.batches) = some schema := by
      rw [statementsOf, StoreSchema.run_append (hcreated.append hmakes).run_moves]
      exact hrows
    have htakes := Catalog.takes_publish d.catalog grown
    have hsnapshot := htakes.snapshot
    rw [hgrownFact] at hsnapshot
    rw [hshred]
    dsimp only
    rw [hrun]
    refine ⟨_, rfl, ⟨htakes.named h.named, fun s hs => ?_, fun hnone => ?_⟩, fun _ => ?_⟩
    · rw [← some.inj (hsnapshot.symm.trans hs)]
      exact ⟨hgrown.of_sameLayout ⟨rfl, rfl, rfl⟩, hstep.of_sameLayout hgrown ⟨rfl, rfl, rfl⟩⟩
    · rw [hsnapshot] at hnone
      cases hnone
    · rw [hsnapshot]
      rfl
  · -- something that is no document is refused
    have hrefused : ∃ e grown, (d.catalog.startOf clock fact).shred docs = (.error e, grown) := by
      unfold shred
      split
      · exact ⟨_, _, rfl⟩
      next hnested =>
        refine absurd (fun doc hdoc => ?_) hobj
        exact isObj_of_nestAll hnested doc.2 (mem_map_of_mem hdoc)
    obtain ⟨e, grown, hshred⟩ := hrefused
    rw [hshred]
    exact ⟨d, rfl, h, fun hcase => hcase.resolve_left hobj⟩

theorem InStep.inserts {batches : List (TransactionId × Float × List (String × Json))}
    (h : d.InStep fact) (hdocs : ∀ batch ∈ batches, ∀ doc ∈ batch.2.2, doc.2.Tidy) :
    ∃ d', batches.foldlM (Deployment.insert fact) d = some d' ∧ d'.InStep fact ∧
      ((∃ batch ∈ batches, ∀ doc ∈ batch.2.2, doc.2.isObj) ∨
        (d.catalog.snapshot? fact).isSome → (d'.catalog.snapshot? fact).isSome) := by
  induction batches generalizing d with
  | nil =>
    refine ⟨d, rfl, h, ?_⟩
    rintro (⟨_, hmem, _⟩ | hsome)
    · cases hmem
    · exact hsome
  | cons batch rest ih =>
    obtain ⟨next, hnext, hstep, hsome⟩ := h.insert batch (hdocs batch mem_cons_self)
    obtain ⟨d', hd, hend, hlast⟩ := ih hstep (fun b hb => hdocs b (.tail _ hb))
    refine ⟨d', ?_, hend, ?_⟩
    · rw [foldlM_cons, hnext]
      exact hd
    · rintro (⟨b, hb, hobj⟩ | hbefore)
      · rcases mem_cons.1 hb with rfl | hb
        · exact hlast (.inr (hsome (.inl hobj)))
        · exact hlast (.inl ⟨b, hb, hobj⟩)
      · exact hlast (.inr (hsome (.inr hbefore)))

/-- Whatever is inserted into a fact, and in whatever order arrays appear: no
    statement adds a column that its table has, every table and column that a
    statement mentions is there when it is run, and afterwards the store has all
    tables and columns of the catalog. Objects are never refused. -/
theorem inserts_covered (fact : String)
    {batches : List (TransactionId × Float × List (String × Json))}
    (hdocs : ∀ batch ∈ batches, ∀ doc ∈ batch.2.2, doc.2.Tidy) :
    ∃ d, batches.foldlM (Deployment.insert fact) .empty = some d ∧
      (∀ s, d.catalog.snapshot? fact = some s → d.schema.Covers s) ∧
      ∀ batch ∈ batches, (∀ doc ∈ batch.2.2, doc.2.isObj = true) →
        (d.catalog.snapshot? fact).isSome = true := by
  rcases (inStep_empty fact).inserts hdocs with ⟨d, hd, hstep, hsome⟩
  refine ⟨d, hd, fun s hs => ?_, fun batch hbatch hobj => hsome (Or.inl ⟨batch, hbatch, hobj⟩)⟩
  rcases hstep.known s hs with ⟨hlaid, hin⟩
  exact hin.covers hlaid

/-- Insertions that make an array, one around it and one between the two, with
    one that is refused. -/
def deliveries : List (TransactionId × Float × List (String × Json)) :=
  (0, 0.5, [("w", .nat 1)]) :: Stored.surrounding.map fun batch => (1, batch)

theorem inserts_covered_deliveries :
    (∀ batch ∈ deliveries, ∀ doc ∈ batch.2.2, doc.2.Tidy) ∧
      ∃ d, deliveries.foldlM (Deployment.insert "t") .empty = some d ∧
        (∀ s, d.catalog.snapshot? "t" = some s → d.schema.Covers s) ∧
        ∀ batch ∈ deliveries, (∀ doc ∈ batch.2.2, doc.2.isObj = true) →
          (d.catalog.snapshot? "t").isSome = true := by
  have hdocs : ∀ batch ∈ deliveries, ∀ doc ∈ batch.2.2, doc.2.Tidy := by
    decide +kernel
  exact ⟨hdocs, inserts_covered "t" hdocs⟩

end

end Deployment

end Snowbank
