import Snowbank.Proofs.Snowflake.Record
import Snowbank.Proofs.Snowflake.Shredding
import Snowbank.Proofs.Store.Catalog

/-!
# The Stored Catalog

The store has a record for every column. A column that changes is marked, and
a flush writes the records of the marked ones: what there is of the column in
any table around it is dropped, and the new record is added.

A column may have moved through several tables since its record was written,
but only to deeper ones, and it remembers the tables around it. So the record
is in one of these.

## Main definitions

* `Mirrors`: Each record is of a column, in one of the tables around it, and
  every column without a mark has one.
* `Archive`: A catalog, and the records of columns in the store.

## Theorems

* `Mirrors.step`: Every step of a catalog keeps what records are stored.
* `records_mirror_columns`: After a flush there is one for each column.
-/

namespace Snowbank

open List Column Ordered Statement

theorem Catalog.perm_queue {columns : List Column} {pending : List (ColumnKey × Column)}
    (hkeys : (columns.map key ++ pending.map Prod.fst).Nodup) :
    ((queue columns pending).map Prod.snd).Perm (columns ++ pending.map Prod.snd) := by
  induction columns generalizing pending with
  | nil => exact .refl _
  | cons c rest ih =>
    rw [map_cons, cons_append, nodup_cons, mem_append, not_or] at hkeys
    have hperm : (insert c.key c pending).Perm _ := perm_insert hkeys.1.2
    have hfirst : (rest.map key ++ (insert c.key c pending).map Prod.fst).Nodup := by
      refine (((hperm.map Prod.fst).append_left _).nodup_iff).2 ?_
      rw [map_cons, nodup_middle, nodup_cons, mem_append, not_or]
      exact hkeys
    refine (ih hfirst).trans ?_
    refine ((hperm.map Prod.snd).append_left rest).trans ?_
    exact perm_middle

theorem DataType.name_inj {t u : DataType} (h : t.name = u.name) : t = u := by
  have ht := t.ofName?_name
  rw [h, u.ofName?_name] at ht
  exact (Option.some.inj ht).symm

/-- What a statement does to the records of the catalog. -/
def Statement.onRecords (records : List Json) : Statement → List Json
  | .forgetColumn name type tables => records.filter fun record =>
    !((record.get? "name").bind Json.str? == some name &&
      (record.get? "json_type").bind Json.str? == some type.name &&
      ((record.get? "es_index").bind Json.str?).any tables.contains)
  | .recordColumn column => records ++ [column.toRecord]
  | _ => records

/-- Writing columns replaces the records that are in tables around them. -/
theorem foldl_onRecords {columns stored : List Column} (hunique : (columns.map label).Nodup)
    (haround : ∀ c ∈ columns, ∀ o ∈ stored, o.label = c.label → o.table ∈ c.tables) :
    (columns.flatMap statements).foldl onRecords (stored.map toRecord) =
      (stored.filter (fun o => o.label ∉ columns.map label) ++ columns).map toRecord := by
  induction columns generalizing stored with
  | nil => simp
  | cons c rest ih =>
    rw [map_cons, nodup_cons] at hunique
    have hforget : onRecords (stored.map toRecord) (.forgetColumn c.name c.type c.tables) =
        (stored.filter (fun o => o.label ≠ c.label)).map toRecord := by
      rw [onRecords, filter_map]
      refine congrArg _ (filter_congr fun o ho => ?_)
      have hin := haround c mem_cons_self o ho
      obtain ⟨hname, htype, htable⟩ := o.str?_toRecord
      rw [Function.comp_apply, hname, htype, htable]
      by_cases hlabel : o.label = c.label
      · obtain ⟨hsame, hkind⟩ := Prod.mk.inj hlabel
        simp [hlabel, hsame, hkind, hin hlabel]
      · have hother : o.name = c.name → ¬o.type.name = c.type.name := fun hsame hkind =>
          hlabel (Prod.ext hsame (DataType.name_inj hkind))
        simp only [ne_eq, hlabel, not_false_eq_true, decide_true]
        by_cases hsame : o.name = c.name
        · simp [hother hsame]
        · simp [hsame]
    rw [flatMap_cons, foldl_append]
    change (rest.flatMap statements).foldl onRecords
      (onRecords _ (.forgetColumn c.name c.type c.tables) ++ [c.toRecord]) = _
    rw [hforget, ← map_singleton, ← map_append, ih hunique.2]
    · congr 1
      -- the new record is not one of those that follow
      have hstays : [c].filter (fun o => o.label ∉ rest.map label) = [c] :=
        filter_eq_self.2 fun o ho => by simpa [mem_singleton.1 ho] using hunique.1
      rw [filter_append, filter_filter, hstays, append_assoc]
      congr 1
      refine filter_congr fun o _ => ?_
      simp [Bool.and_comm]
    · intro d hd o ho hlabel
      rcases mem_append.1 ho with ho | ho
      · exact haround d (.tail _ hd) o (mem_filter.1 ho).1 hlabel
      · rw [mem_singleton.1 ho] at hlabel
        exact absurd (hlabel ▸ mem_map_of_mem hd) hunique.1

theorem Column.dropEnd?_append (text ending : String) :
    dropEnd? (text ++ ending) ending = some text := by
  simp [dropEnd?]

namespace Snowflake

section

variable {s : Snowflake} {c : Column}

section

variable (hs : s.Settled)
include hs

theorem Settled.fact_eq (hc : c ∈ s.columns) : c.fact = s.fact := by
  have htable := (hs.placed hc).table
  rw [tableName] at htable
  rw [Column.fact, htable]
  split_ifs with hroot
  · rfl
  · rw [dropEnd?_append]
    simp [dropEnd?_append]

theorem Settled.key_eq (hc : c ∈ s.columns) : c.key = ⟨s.fact, c.name, c.type⟩ := by
  rw [key, hs.fact_eq hc]

theorem Settled.label_eq_of_key {d : Column} (hc : c ∈ s.columns)
    (hd : d ∈ s.columns) (h : c.key = d.key) : c.label = d.label := by
  rw [hs.key_eq hc, hs.key_eq hd] at h
  exact Prod.ext (congrArg ColumnKey.name h) (congrArg ColumnKey.type h)

theorem Settled.tables_eq (hc : c ∈ s.columns) : c.tables = c.nestedPath.map s.tableName := by
  rw [Column.tables, hs.fact_eq hc]
  rfl

theorem Settled.table_mem (hc : c ∈ s.columns) : c.table ∈ c.tables := by
  rw [hs.tables_eq hc, (hs.placed hc).table]
  exact mem_map_of_mem (((hs.placed hc).arrays _).2
    ⟨(hs.placed hc).home.known, Path.isUnder_refl _⟩)

end

/-- A column that a new array moves keeps the arrays that were around it. -/
theorem Laid.nestedPath_place (hs : s.Laid) {path : Path} (hpath : path.Canonical)
    (hroot : path ≠ .root) (hnew : path ∉ s.nested) (hc : c ∈ s.columns)
    (hunder : c.name.isUnder path) {n : Path} (hn : n ∈ c.nestedPath) :
    n ∈ ((s.withArray path).place c).nestedPath := by
  have hlabel : (c.name, c.type) ∈ s.labels := mem_labels.2 ⟨c, hc, rfl, rfl⟩
  have hwas := ((hs.placed hc).arrays n).1 hn
  rw [hs.home_eq hc] at hwas
  change n ∈ (s.withArray path).nestedPathList ((s.withArray path).homeOf c.name c.type)
  rw [mem_nestedPathList, hs.homeOf_moved hpath hroot hnew hlabel hunder]
  refine ⟨hwas.1.imp_right fun h => mem_nested_withArray.2 (.inr h), ?_⟩
  split_ifs with hhome
  · rw [hhome] at hwas
    exact Path.isUnder_trans (isHome_nestedPathOf hs.toArraysOrdered path).under hwas.2
  · exact hwas.2

end

/-- Records of these columns are stored: each is of a column, in one of the
    tables around it, and all columns without a mark are among them. -/
structure Mirrors (s : Snowflake) (stored : List Column) : Prop where
  unique : (stored.map label).Nodup
  known : ∀ o ∈ stored, ∃ c ∈ s.columns, c.label = o.label ∧ o.table ∈ c.tables
  kept : ∀ c ∈ s.columns, c.key ∈ s.dirty ∨ c ∈ stored

section

variable {s : Snowflake} {stored : List Column}

variable {written : List Column}

theorem Mirrors.push (h : s.Mirrors stored) (c : Column) : (s.push c).Mirrors stored where
  unique := h.unique
  known := by
    intro o ho
    obtain ⟨d, hd, hsame⟩ := h.known o ho
    exact ⟨d, mem_append_left _ hd, hsame⟩
  kept := by
    intro d hd
    rcases mem_append.1 hd with hd | hd
    · exact (h.kept d hd).imp_left fun hmark => mem_insertElem.2 (Or.inr hmark)
    · rw [mem_singleton.1 hd]
      exact Or.inl (mem_insertElem.2 (Or.inl rfl))

theorem Mirrors.relocated (h : s.Mirrors stored) (hs : s.Laid) {path : Path}
    (hpath : path.Canonical) (hroot : path ≠ Path.root) (hnew : path ∉ s.nested) :
    (s.relocated path).1.Mirrors stored where
  unique := h.unique
  known := by
    intro o ho
    obtain ⟨c, hc, hlabel, htable⟩ := h.known o ho
    have hsettled := hs.toSettled.relocated hpath hroot
    have hmem : (if c.name.isUnder path then (s.withArray path).place c else c) ∈
        (s.relocated path).1.columns := by
      rw [columns_relocated]
      exact mem_map_of_mem hc
    refine ⟨_, hmem, ?_, ?_⟩
    · rw [← hlabel]
      split_ifs <;> rfl
    · rw [hsettled.tables_eq hmem]
      rw [hs.tables_eq hc] at htable
      obtain ⟨n, hn, htable⟩ := mem_map.1 htable
      refine mem_map.2 ⟨n, ?_, htable⟩
      split_ifs with hunder
      · exact hs.nestedPath_place hpath hroot hnew hc hunder hn
      · exact hn
  kept := by
    intro c hc
    have hmarks : ∀ key, key ∈ (s.relocated path).1.dirty ↔ key ∈ s.dirty ∨
        key ∈ ((s.relocated path).1.columns.filter fun c => c.name.isUnder path).map
          Column.key := by
      intro key
      rw [← mem_foldl_insertElem, foldl_map]
      rfl
    rw [hmarks]
    by_cases hunder : c.name.isUnder path
    · exact .inl (.inr (mem_map_of_mem (mem_filter.2 ⟨hc, hunder⟩)))
    · rw [columns_relocated] at hc
      obtain ⟨d, hd, rfl⟩ := mem_map.1 hc
      -- a column that is put elsewhere keeps its path
      have hstays : d.name.isUnder path ≠ true := fun h => hunder (by rwa [if_pos h])
      rw [if_neg hstays]
      exact (h.kept d hd).imp_left .inl

theorem Mirrors.observeLength (h : s.Mirrors stored) (hs : s.Laid) (path : Path) (length : Nat) :
    (s.observeLength path length).Mirrors stored where
  unique := h.unique
  known := by
    intro o ho
    obtain ⟨c, hc, hlabel, htable⟩ := h.known o ho
    have hslot : c.slot ∈ (s.observeLength path length).columns.map slot := by
      rw [(hs.sameLayout_observeLength path length).slots]
      exact mem_map_of_mem hc
    obtain ⟨d, hd, hsame⟩ := mem_map.1 hslot
    simp only [slot, Prod.mk.injEq] at hsame
    refine ⟨d, hd, ?_, ?_⟩
    · rw [← hlabel, label, label, hsame.1, hsame.2.1]
    · have hhome : d.home = c.home := by rw [home, home, hsame.2.2.2.1]
      have hfact : d.fact = c.fact := by rw [Column.fact, Column.fact, hhome, hsame.2.2.1]
      rw [Column.tables, hfact, hsame.2.2.2.1]
      exact htable
  kept := by
    unfold Snowflake.observeLength
    split
    · exact h.kept
    · split
      · intro d hd
        rcases mem_replaceColumn hd with rfl | hd
        · exact .inl (mem_insertElem.2 (.inl rfl))
        · exact (h.kept d hd).imp_left fun hmark => mem_insertElem.2 (.inr hmark)
      · exact h.kept

theorem Mirrors.step {s' : Snowflake} (hs : s.Laid) (hstep : Step s s') (h : s.Mirrors stored) :
    s'.Mirrors stored := by
  cases hstep with
  | numbered nextUid => exact ⟨h.unique, h.known, h.kept⟩
  | column => exact h.push _
  | array canonical inside fresh => exact ((h.relocated hs canonical inside fresh).push _).push _
  | length path length => exact h.observeLength hs path length

theorem Settled.nodup_of_perm (hs : s.Settled)
    (h : written.Perm s.takeDirty.1) : (written.map label).Nodup :=
  (h.map label).nodup_iff.2 (hs.unique.sublist (filter_sublist.map _))

/-- A flush writes what is missing: the records are then those of the columns. -/
theorem Mirrors.perm_flush (h : s.Mirrors stored) (hs : s.Settled)
    (hwritten : written.Perm s.takeDirty.1) :
    (stored.filter (fun o => o.label ∉ written.map label) ++ written).Perm s.columns := by
  have hmarked : ∀ c, c ∈ written ↔ c ∈ s.columns ∧ c.key ∈ s.dirty := by
    intro c
    rw [hwritten.mem_iff]
    simp [takeDirty]
  have hlabels := hs.nodup_of_perm hwritten
  have hcolumns : s.columns.Nodup := hs.unique.of_map
  refine (perm_ext_iff_of_nodup ?_ hcolumns).2 fun c => ?_
  · refine nodup_append.2 ⟨h.unique.of_map.filter _, hlabels.of_map, fun o ho c hc heq => ?_⟩
    have hnot := (mem_filter.1 ho).2
    rw [heq] at hnot
    exact absurd (mem_map_of_mem hc) (by simpa using hnot)
  · rw [mem_append, mem_filter, hmarked, decide_eq_true_eq, mem_map]
    constructor
    · rintro (⟨ho, hnot⟩ | hc)
      · -- the column of the record has no mark, so the record is up to date
        obtain ⟨d, hd, hlabel, -⟩ := h.known c ho
        have hclean : d.key ∉ s.dirty := fun hmark =>
          hnot ⟨d, (hmarked d).2 ⟨hd, hmark⟩, hlabel⟩
        have hstored := (h.kept d hd).resolve_left hclean
        rwa [← inj_on_of_nodup_map h.unique hstored ho hlabel]
      · exact hc.1
    · intro hc
      -- a column with a mark is written, any other has its record
      by_cases hmark : c.key ∈ s.dirty
      · exact .inr ⟨hc, hmark⟩
      · refine .inl ⟨(h.kept c hc).resolve_left hmark, ?_⟩
        rintro ⟨d, hd, hlabel⟩
        obtain ⟨hd, hdirty⟩ := (hmarked d).1 hd
        rw [inj_on_of_nodup_map hs.unique hd hc hlabel] at hdirty
        exact hmark hdirty

/-- After a flush all columns have their records, and none has a mark. -/
theorem Settled.mirrors (hs : s.Settled) (h : stored.Perm s.columns) :
    s.takeDirty.2.Mirrors stored where
  unique := (h.map label).nodup_iff.2 hs.unique
  known := fun o ho => ⟨o, h.mem_iff.1 ho, rfl, hs.table_mem (h.mem_iff.1 ho)⟩
  kept := fun _ hc => .inr (h.mem_iff.2 hc)

end

end Snowflake

/-- A catalog, and the records of columns in the store. -/
structure Archive where
  snowflake : Snowflake
  records : List Json

namespace Archive

open Snowflake

variable {a : Archive}

/-- Nothing is there yet. -/
def empty (fact : String) : Archive := ⟨.empty fact, []⟩

/-- Write the records of the columns that have changed, for each key those of its last version. -/
def flush (a : Archive) : Archive :=
  let written := (Catalog.empty.publish a.snowflake).takePending.1
  ⟨a.snowflake.takeDirty.2, (written.flatMap statements).foldl onRecords a.records⟩

/-- What happens to a catalog: something is asked of it, or it is flushed. -/
inductive Event where
  | grow (growth : Growth)
  | flush

/-- The paths that are asked for are canonical. -/
def Event.Fit : Event → Prop
  | grow growth => growth.Fit
  | flush => True

instance : (event : Event) → Decidable event.Fit
  | .grow growth => inferInstanceAs (Decidable growth.Fit)
  | .flush => inferInstanceAs (Decidable True)

/-- The catalog and the records after that. -/
def step (a : Archive) : Event → Archive
  | .grow growth => { a with snowflake := a.snowflake.grow growth }
  | .flush => a.flush

/-- The catalog is laid out, and its records are in the store up to the columns with marks. -/
def InStep (a : Archive) : Prop :=
  a.snowflake.Laid ∧ ∃ stored, a.snowflake.Mirrors stored ∧ a.records = stored.map toRecord

theorem inStep_empty (fact : String) : (empty fact).InStep :=
  ⟨laid_empty fact, [], ⟨nodup_nil, forall_mem_nil _, forall_mem_nil _⟩, rfl⟩

theorem InStep.flush (h : a.InStep) : a.flush.InStep ∧
    a.flush.records.Perm (a.flush.snowflake.columns.map toRecord) := by
  obtain ⟨hlaid, stored, hmirrors, hrecords⟩ := h
  have hs := hlaid.toSettled
  have hdirty : ∀ c ∈ a.snowflake.takeDirty.1, c ∈ a.snowflake.columns := fun c hc =>
    (mem_filter.1 hc).1
  obtain ⟨written, hdef⟩ : ∃ written, written = (Catalog.empty.publish a.snowflake).takePending.1 :=
    ⟨_, rfl⟩
  have hwritten : written.Perm a.snowflake.takeDirty.1 := by
    have hkeys : (a.snowflake.takeDirty.1.map key).Nodup := by
      refine (hs.unique.of_map.filter _).map_on fun c hc d hd hkey => ?_
      have hlabel := hs.label_eq_of_key (hdirty c hc) (hdirty d hd) hkey
      exact inj_on_of_nodup_map hs.unique (hdirty c hc) (hdirty d hd) hlabel
    have hqueue : ((Catalog.queue a.snowflake.takeDirty.1 []).map Prod.snd).Perm _ :=
      Catalog.perm_queue (by simpa using hkeys)
    rw [map_nil, append_nil] at hqueue
    rw [hdef]
    exact hqueue
  have hperm := hmirrors.perm_flush hs hwritten
  have hfold : a.flush.records =
      (stored.filter (fun o => o.label ∉ written.map label) ++ written).map toRecord := by
    rw [Archive.flush, hrecords, ← hdef]
    refine foldl_onRecords (hs.nodup_of_perm hwritten) fun c hc o ho hlabel => ?_
    -- the column of an earlier record has the tables of that record around it
    obtain ⟨d, hd, hsame, htable⟩ := hmirrors.known o ho
    have hc := hdirty c (hwritten.mem_iff.1 hc)
    rwa [inj_on_of_nodup_map hs.unique hd hc (hsame.trans hlabel)] at htable
  refine ⟨⟨hlaid.of_sameLayout ⟨rfl, rfl, rfl⟩, _, hs.mirrors hperm, hfold⟩, ?_⟩
  rw [hfold]
  exact hperm.map _

theorem InStep.step (h : a.InStep) {event : Event} (hfit : event.Fit) : (a.step event).InStep := by
  cases event with
  | flush => exact h.flush.1
  | grow growth =>
    obtain ⟨hlaid, stored, hmirrors, hrecords⟩ := h
    have hgrown := hlaid.grow_keeps (P := fun s => s.Mirrors stored) Mirrors.step hfit hmirrors
      ⟨hmirrors.unique, hmirrors.known, hmirrors.kept⟩
    exact ⟨hgrown.1, stored, hgrown.2, hrecords⟩

theorem InStep.run (h : a.InStep) {events : List Event}
    (hfit : ∀ event ∈ events, event.Fit) : (events.foldl Archive.step a).InStep := by
  induction events generalizing a with
  | nil => exact h
  | cons event rest ih =>
    exact ih (h.step (hfit event mem_cons_self)) fun e he => hfit e (.tail _ he)

/-- Whatever is asked of a catalog and whenever it is flushed, right after a flush there is one
    record for each column, that of the column as it is, and no other. -/
theorem records_mirror_columns (fact : String) (events : List Event)
    (hfit : ∀ event ∈ events, event.Fit) :
    (events.foldl step (empty fact)).flush.records.Perm
      ((events.foldl step (empty fact)).flush.snowflake.columns.map Column.toRecord) :=
  ((inStep_empty fact).run hfit).flush.2

/-- A column is written, moves into an array and then into one around it, and
    is written again; a request and documents are refused on the way. -/
def movedTwice : List Event :=
  [.grow (.ask (.column 1.0 "a.b.c" .integer)), .flush, .grow (.ask (.array 2.0 "a.b")),
    .grow (.ask (.array 3.0 ".")), .grow (.documents 4.0 [("u", .nat 1)]),
    .grow (.documents 5.0 [("v", .obj [("a", .arr [.obj [("b", .nat 1)], .obj []])])]), .flush,
    .grow (.documents 6.0 [("w", .obj [("a", .arr [.obj [], .obj [], .obj []])])])]

theorem records_mirror_columns_movedTwice :
    (∀ event ∈ movedTwice, event.Fit) ∧
      (movedTwice.foldl step (empty "t")).flush.records.Perm
        ((movedTwice.foldl step (empty "t")).flush.snowflake.columns.map Column.toRecord) := by
  have hfit : ∀ event ∈ movedTwice, event.Fit := by decide +kernel
  exact ⟨hfit, records_mirror_columns "t" movedTwice hfit⟩

end Archive

end Snowbank
