import Mathlib.Data.Finset.Insert
import Mathlib.Data.Finset.Lattice.Basic
import Snowbank.Proofs.Snowflake.WellFormed

/-!
# The Tables of a Store

A statement that names a table or a column which is not there fails, and so does
one that adds a column which is. Only a table that is there already may be asked
for again.

A catalog that grows comes with statements, and these have to work on whatever
the store has become by then. The difficulty is what the store keeps: a column
whose values have moved into a new array stays behind in the table around it,
where the catalog no longer knows of it. So every column of the store has to
tell what it was made for. A column that is new in the catalog was never made
for anything, so by the names of columns it is new in the store.

The rows that move are moved when all tables have their columns. Tables and
columns only get more, so what such a statement needs may be looked up where
its array has been made.

## Main definitions

* `StoreSchema`: The tables of a store, each with its columns.
* `run`: What statements make of the tables, if they all work.
* `InStep`: A store has what a catalog says, and maybe old columns.

## Theorems

* `InStep.run_arrayChanges`: The statements for a new array work.
* `InStep.withTable`: The store is then in step again.
-/

namespace Snowbank

open List ColumnMove Statement

/-- The tables of a store, each with its columns. -/
abbrev StoreSchema := String → Option (Finset String)

namespace Statement

/-- The names of the columns that a table has from the start. -/
def reservedColumns : Option String → List String
  | none => [uidColumn, guidColumn]
  | some _ => [uidColumn, parentColumn, orderColumn]

/-- What the condition on rows that move reads. -/
def conditionMentions (parent : String) (moves : List ColumnMove) (reparent : List String) :
    List (String × List String) :=
  (parent, moves.map source) ::
    reparent.flatMap fun table => [(parent, [uidColumn]), (table, [parentColumn])]

/-- The tables that a statement changes, reads or fills, with the columns that it reads or fills. -/
def mentions : Statement → List (String × List String)
  | addColumn table _ _ => [(table, [])]
  | copyRows parent child moves reparent =>
    (child, [uidColumn, parentColumn, orderColumn] ++ moves.map target) ::
      (parent, uidColumn :: moves.map source) ::
      conditionMentions parent moves reparent
  | clearRows parent counter moves reparent =>
    (parent, counter :: moves.map source) :: conditionMentions parent moves reparent
  | insertRows table columns _ => [(table, columns)]
  | _ => []

end Statement

namespace Snowflake

theorem reservedColumns_tableName (s : Snowflake) (n : Path) : s.reservedColumns (s.tableName n) =
    if n = .root then [uidColumn, guidColumn] else [uidColumn, parentColumn, orderColumn] := by
  have hfact : s.tableName n = s.fact ↔ n = .root :=
    ⟨fun h => tableName_inj (s := s) h, fun h => h ▸ rfl⟩
  unfold reservedColumns
  simp [hfact]

section

variable {s : Snowflake} {path : Path} (hs : s.Opens path)

include hs

theorem Opens.newCounter_eq : (s.newCounter path).table = s.tableName (s.nestedPathOf path) ∧
    (s.newCounter path).physical = (path.relativeTo (s.nestedPathOf path)).typed .presence := by
  have hself := hs.parent_self
  have hstands : (s.withTable path).Stands (s.newCounter path) :=
    stands_place hs.withTable.toArraysOrdered fun _ => hs.not_at_root
  refine ⟨hstands.table.trans (congrArg s.tableName hself), hstands.physical.trans ?_⟩
  exact congrArg (fun home => (path.relativeTo home).typed .presence) hself

/-- The columns of a catalog with a new array: those that have moved, the count
    of the array, and those that stay. -/
theorem Opens.hasCell_withTable {n : Path} {column : String}
    (h : (s.withTable path).HasCell n column) :
    (n = path ∧ ∃ m ∈ (s.relocated path).2, column = m.target) ∨
      (n = s.nestedPathOf path ∧ column = (s.newCounter path).physical) ∨ s.HasCell n column := by
  obtain ⟨p, t, hlabel, ht, rfl, rfl⟩ := h
  rw [labels_withTable] at hlabel
  rcases mem_append.1 hlabel with hlabel | hlabel
  · have hsame : (s.withTable path).homeOf p t = s.homeOf p t →
        s.HasCell ((s.withTable path).homeOf p t) ((s.withTable path).columnName p t) := fun heq =>
      ⟨p, t, hlabel, ht, heq.symm, congrArg (fun home => (p.relativeTo home).typed t) heq.symm⟩
    by_cases hunder : p.isUnder path
    · have hmoved : (s.withTable path).homeOf p t = _ := hs.homeOf_moved hlabel hunder
      split at hmoved
      next hhome =>
        refine .inl ⟨hmoved, _, hs.mem_moves.2
          ⟨p, t, hlabel, ht, hunder, hhome, rfl⟩, ?_⟩
        exact congrArg (fun home => (p.relativeTo home).typed t) hmoved
      · exact .inr (.inr (hsame hmoved))
    · exact .inr (.inr (hsame (homeOf_withArray (Bool.eq_false_iff.2 hunder) t)))
  · simp only [mem_cons, Prod.mk.injEq, not_mem_nil, or_false] at hlabel
    rcases hlabel with ⟨rfl, rfl⟩ | ⟨rfl, rfl⟩
    · exact absurd rfl ht
    · have hself := hs.parent_self
      refine .inr (.inl ⟨hself, ?_⟩)
      rw [hs.newCounter_eq.2]
      exact congrArg (fun home => (p.relativeTo home).typed .presence) hself

omit hs in
theorem mem_moves_arrayChanges {change : SchemaChange} {st : Statement}
    (hchange : change ∈ s.arrayChanges path) (hst : st ∈ change.moves) :
    st = .copyRows (s.tableName (s.nestedPathOf path)) (s.tableName path) (s.relocated path).2
        (s.reparented path) ∨
      st = .clearRows (s.tableName (s.nestedPathOf path)) (s.newCounter path).physical
        (s.relocated path).2 (s.reparented path) := by
  rcases mem_cons.1 hchange with rfl | hchange
  · cases hst
  · rcases mem_cons.1 hchange with rfl | hchange
    · cases hst
    · unfold migration at hchange
      split at hchange
      · cases hchange
      next hsome =>
        rw [mem_singleton.1 hchange, SchemaChange.moves, if_neg hsome] at hst
        simpa using hst

/-- Columns that move have different names where they come to. -/
theorem Opens.nodup_targets : ((s.relocated path).2.map target).Nodup := by
  rw [hs.moves_relocated hs.canonical_path hs.not_at_root hs.new, map_map]
  have hlabels : s.columns.Pairwise fun c d => c.label ≠ d.label := pairwise_map.1 hs.unique
  refine pairwise_map.2 ((hlabels.filter _).imp_of_mem ?_)
  intro c d hc hd hne heq
  obtain ⟨hc, hcbelow⟩ := mem_filter.1 hc
  obtain ⟨hd, hdbelow⟩ := mem_filter.1 hd
  rcases Path.typed_relativeTo_inj (hs.canonical_name c hc) (hs.canonical_name d hd)
    (Bool.and_eq_true_iff.1 hcbelow).2 (Bool.and_eq_true_iff.1 hdbelow).2 heq with ⟨hname, htype⟩
  rw [hs.stored c hc, hs.stored d hd] at htype
  exact hne (Prod.ext hname htype)

end

end Snowflake

theorem reservedNames_of_mem {column : String}
    (h : column ∈ [uidColumn, parentColumn, orderColumn]) :
    column ∈ reservedNames := by
  have hall : ∀ name ∈ [uidColumn, parentColumn, orderColumn], name ∈ reservedNames := by decide
  exact hall column h

namespace StoreSchema

/-- There are no tables. -/
def empty : StoreSchema := fun _ => none

def HasTable (schema : StoreSchema) (table : String) : Prop := (schema table).isSome

instance (schema : StoreSchema) (table : String) : Decidable (schema.HasTable table) :=
  inferInstanceAs (Decidable ((schema table).isSome))

def columnsOf (schema : StoreSchema) (table : String) : Finset String := (schema table).getD ∅

/-- A table with columns, in the place of one that was there. -/
def put (schema : StoreSchema) (table : String) (columns : Finset String) : StoreSchema :=
  Function.update schema table (some columns)

/-- A table with one more column. -/
def addTo (schema : StoreSchema) (table column : String) : StoreSchema :=
  schema.put table (insert column (schema.columnsOf table))

/-- There is a table, and it has the columns named with it. -/
def Knows (schema : StoreSchema) (mention : String × List String) : Prop :=
  schema.HasTable mention.1 ∧ ∀ column ∈ mention.2, column ∈ schema.columnsOf mention.1

instance (schema : StoreSchema) (mention : String × List String) :
    Decidable (schema.Knows mention) :=
  inferInstanceAs (Decidable (_ ∧ _))

/-- One store has what another one has. -/
def Within (schema schema' : StoreSchema) : Prop :=
  ∀ mention, schema.Knows mention → schema'.Knows mention

/-- What a statement does to tables, when all that it mentions is there. A
    column can be added once. -/
def effect (schema : StoreSchema) : Statement → Option StoreSchema
  | .createTable table parent =>
    some (if schema.HasTable table then schema
      else schema.put table (reservedColumns parent).toFinset)
  | .addColumn table column _ =>
    if column ∈ schema.columnsOf table then none
    else some (schema.addTo table column)
  | .copyRows _ _ _ _ | .clearRows _ _ _ _ | .insertRows _ _ _ => some schema
  -- the records of the catalog are kept elsewhere, and a text may do anything
  | .forgetColumn _ _ _ | .recordColumn _ | .plain _ => none

/-- What a statement makes of the tables. It fails if it mentions something that is not there. -/
def execute (schema : StoreSchema) (statement : Statement) : Option StoreSchema :=
  if ∀ m ∈ statement.mentions, schema.Knows m then schema.effect statement else none

/-- What statements make of the tables, one after the other. -/
def run (schema : StoreSchema) (statements : List Statement) : Option StoreSchema :=
  statements.foldlM execute schema

section

variable {table other column : String} {statements : List Statement}

variable {schema schema' : StoreSchema}

variable {columns : Finset String} {statement : Statement} {moves : List ColumnMove}
  {parent : String}

theorem hasTable_put :
    (schema.put table columns).HasTable other ↔ other = table ∨ schema.HasTable other := by
  unfold HasTable put
  by_cases h : other = table
  · simp [h]
  · simp [h]

theorem columnsOf_put (table other : String) (columns : Finset String) :
    (schema.put table columns).columnsOf other =
      if other = table then columns else schema.columnsOf other := by
  unfold columnsOf put
  by_cases h : other = table
  · simp [h]
  · simp [h]

theorem within_put
    (h : schema.columnsOf table ⊆ columns) : schema.Within (schema.put table columns) := by
  intro mention hknown
  refine ⟨hasTable_put.2 (.inr hknown.1), fun column hcolumn => ?_⟩
  rw [columnsOf_put]
  split
  next htable => exact h (htable ▸ hknown.2 column hcolumn)
  · exact hknown.2 column hcolumn

theorem hasTable_addTo (h : schema.HasTable table) :
    (schema.addTo table column).HasTable other ↔ schema.HasTable other :=
  hasTable_put.trans (or_iff_right_of_imp fun heq => heq ▸ h)

theorem mem_columnsOf_addTo {x : String} : x ∈ (schema.addTo table column).columnsOf other ↔
      (other = table ∧ x = column) ∨ x ∈ schema.columnsOf other := by
  rw [addTo, columnsOf_put]
  by_cases h : other = table
  · simp [h]
  · simp [h]

theorem within_addTo (schema : StoreSchema) (table column : String) :
    schema.Within (schema.addTo table column) := within_put (Finset.subset_insert _ _)

theorem columnsOf_eq_empty (h : ¬schema.HasTable table) : schema.columnsOf table = ∅ := by
  rw [columnsOf, Option.not_isSome_iff_eq_none.1 h]
  rfl

theorem effect_of_execute (h : schema.execute statement = some schema') :
    schema.effect statement = some schema' := by
  unfold execute at h
  split at h
  · exact h
  · cases h

theorem within_execute (h : schema.execute statement = some schema') : schema.Within schema' := by
  have heffect := effect_of_execute h
  cases statement with
  | createTable table parent =>
    rw [← Option.some.inj heffect]
    split
    · exact fun _ hknown => hknown
    next hnone =>
      refine within_put ?_
      rw [columnsOf_eq_empty hnone]
      exact Finset.empty_subset _
  | addColumn table column type =>
    rw [effect] at heffect
    split at heffect
    · cases heffect
    · rw [← Option.some.inj heffect]
      exact within_addTo schema table column
  | copyRows | clearRows | insertRows =>
    rw [← Option.some.inj heffect]
    exact fun _ hknown => hknown
  | plain | forgetColumn | recordColumn => cases heffect

theorem execute_addColumn {type : DataType} (htable : schema.HasTable table)
    (hnew : column ∉ schema.columnsOf table) : schema.execute (.addColumn table column type) =
      some (schema.addTo table column) := by
  have hmentions : ∀ m ∈ (addColumn table column type).mentions, schema.Knows m :=
    forall_mem_singleton.2 ⟨htable, forall_mem_nil _⟩
  rw [execute, if_pos hmentions, effect, if_neg hnew]

theorem execute_createTable {parent : Option String}
    (hnew : ¬schema.HasTable table) : schema.execute (.createTable table parent) =
      some (schema.put table (reservedColumns parent).toFinset) := by
  have hmentions : ∀ m ∈ (createTable table parent).mentions, schema.Knows m :=
    forall_mem_nil _
  rw [execute, if_pos hmentions, effect, if_neg hnew]

theorem run_cons (statement : Statement) (rest : List Statement) :
    schema.run (statement :: rest) = (schema.execute statement).bind fun next => next.run rest :=
  foldlM_cons

theorem run_append {rest : List Statement} (h : schema.run statements = some schema') :
    schema.run (statements ++ rest) = schema'.run rest := by
  rw [run, foldlM_append]
  change (schema.run statements).bind _ = _
  rw [h]
  rfl

theorem within_run (h : schema.run statements = some schema') : schema.Within schema' := by
  induction statements generalizing schema with
  | nil =>
    cases h
    exact fun _ hknown => hknown
  | cons statement rest ih =>
    rw [run_cons] at h
    obtain ⟨next, hnext, hrest⟩ := Option.bind_eq_some_iff.1 h
    exact fun mention hknown => ih hrest mention (within_execute hnext mention hknown)

/-- Columns with new and different names can be added one after the other. -/
theorem run_addColumns (htable : schema.HasTable table) (hnodup : (moves.map target).Nodup)
    (hnew : ∀ m ∈ moves, m.target ∉ schema.columnsOf table) :
    ∃ schema', schema.run (moves.map fun m => .addColumn table m.target m.type) = some schema' ∧
      (∀ other, schema'.HasTable other ↔ schema.HasTable other) ∧
      ∀ other x, x ∈ schema'.columnsOf other ↔
        (other = table ∧ ∃ m ∈ moves, x = m.target) ∨ x ∈ schema.columnsOf other := by
  induction moves generalizing schema with
  | nil =>
    refine ⟨schema, rfl, fun _ => Iff.rfl, fun other x => ?_⟩
    simp
  | cons m rest ih =>
    obtain ⟨hfirst, hrest⟩ := nodup_cons.1 hnodup
    have hadded : ∀ m' ∈ rest, m'.target ∉ (schema.addTo table m.target).columnsOf table := by
      intro m' hm' hmem
      rcases mem_columnsOf_addTo.1 hmem with ⟨_, heq⟩ | hmem
      · exact hfirst (heq ▸ mem_map_of_mem hm')
      · exact hnew m' (mem_cons_of_mem _ hm') hmem
    obtain ⟨schema', hrun, htables, hcolumns⟩ :=
      ih ((hasTable_addTo htable).2 htable) hrest hadded
    refine ⟨schema', ?_, fun other => (htables other).trans (hasTable_addTo htable),
      fun other x => ?_⟩
    · rw [map_cons, run_cons, execute_addColumn htable (hnew m mem_cons_self)]
      exact hrun
    · rw [hcolumns, mem_columnsOf_addTo, ← or_assoc, ← and_or_left]
      simp [or_comm]

/-- The table of a new array can be made, with its count in the table around
    it and columns of its own. -/
theorem run_newTable {child counter : String} (type : DataType)
    (hchild : ¬schema.HasTable child) (hparent : schema.HasTable parent)
    (hcounter : counter ∉ schema.columnsOf parent) (hnodup : (moves.map target).Nodup)
    (hreserved : ∀ m ∈ moves, m.target ∉ reservedNames) :
    ∃ schema', schema.run (.createTable child (some parent) :: .addColumn parent counter type ::
        moves.map fun m => .addColumn child m.target m.type) = some schema' ∧
      (∀ other, schema'.HasTable other ↔ other = child ∨ schema.HasTable other) ∧
      ∀ other x, x ∈ schema'.columnsOf other ↔
        (other = child ∧ (x ∈ [uidColumn, parentColumn, orderColumn] ∨ ∃ m ∈ moves, x = m.target)) ∨
        (other = parent ∧ x = counter) ∨ x ∈ schema.columnsOf other := by
  have hne : parent ≠ child := fun heq => hchild (heq ▸ hparent)
  let made := schema.put child (reservedColumns (some parent)).toFinset
  -- the table was not there, so it has the columns of its rows only
  have hmade : ∀ other x, x ∈ made.columnsOf other ↔
      (other = child ∧ x ∈ [uidColumn, parentColumn, orderColumn]) ∨
        x ∈ schema.columnsOf other := by
    intro other x
    rw [columnsOf_put]
    by_cases hother : other = child
    · rw [if_pos hother, mem_toFinset, hother, columnsOf_eq_empty hchild]
      simp only [true_and, Finset.notMem_empty, or_false]
      rfl
    · rw [if_neg hother]
      simp [hother]
  have hhas : made.HasTable parent := hasTable_put.2 (Or.inr hparent)
  have hfirst : counter ∉ made.columnsOf parent := fun hmem =>
    ((hmade _ _).1 hmem).elim (fun hself => hne hself.1) hcounter
  -- columns that move are not called like one of these
  have hfresh : ∀ m ∈ moves, m.target ∉ (made.addTo parent counter).columnsOf child := by
    intro m hm hmem
    rcases mem_columnsOf_addTo.1 hmem with ⟨heq, _⟩ | hmem
    · exact hne heq.symm
    · rcases (hmade _ _).1 hmem with ⟨_, hfixed⟩ | hmem
      · exact hreserved m hm (reservedNames_of_mem hfixed)
      · rw [columnsOf_eq_empty hchild] at hmem
        exact absurd hmem (Finset.notMem_empty _)
  obtain ⟨schema', hrun, htables, hcolumns⟩ :=
    run_addColumns ((hasTable_addTo hhas).2 (hasTable_put.2 (.inl rfl))) hnodup hfresh
  refine ⟨schema', ?_, fun other => ?_, fun other x => ?_⟩
  · rw [run_cons, execute_createTable hchild, Option.bind_some, run_cons,
      execute_addColumn hhas hfirst]
    exact hrun
  · rw [htables, hasTable_addTo hhas, hasTable_put]
  · rw [hcolumns, mem_columnsOf_addTo, hmade]
    constructor
    · rintro (⟨hself, hm⟩ | hcount | ⟨hself, hfixed⟩ | hold)
      · exact Or.inl ⟨hself, Or.inr hm⟩
      · exact .inr (.inl hcount)
      · exact .inl ⟨hself, .inl hfixed⟩
      · exact .inr (.inr hold)
    · rintro (⟨hself, hfixed | hm⟩ | hcount | hold)
      · exact .inr (.inr (.inl ⟨hself, hfixed⟩))
      · exact .inl ⟨hself, hm⟩
      · exact .inr (.inl hcount)
      · exact .inr (.inr (.inr hold))

theorem knows_cons {columns : List String} : schema.Knows (table, column :: columns) ↔
      schema.Knows (table, [column]) ∧ schema.Knows (table, columns) := by
  unfold Knows
  simp only [forall_mem_cons, not_mem_nil, false_imp_iff, implies_true, and_true]
  exact ⟨fun h => ⟨⟨h.1, h.2.1⟩, h.1, h.2.2⟩, fun h => ⟨h.1.1, h.1.2, h.2.2⟩⟩

theorem knows_conditionMentions {reparent : List String}
    (hparent : schema.Knows (parent, uidColumn :: moves.map source))
    (hreparent : ∀ table ∈ reparent, schema.Knows (table, [parentColumn])) :
    ∀ m ∈ conditionMentions parent moves reparent, schema.Knows m := by
  obtain ⟨huid, hsources⟩ := knows_cons.1 hparent
  refine forall_mem_cons.2 ⟨hsources, fun m hm => ?_⟩
  obtain ⟨table, htable, hm⟩ := mem_flatMap.1 hm
  simp only [mem_cons, not_mem_nil, or_false] at hm
  rcases hm with rfl | rfl
  · exact huid
  · exact hreparent table htable

/-- A statement only moves or adds rows. -/
def OnlyRows (statement : Statement) : Prop :=
  ∀ schema : StoreSchema, schema.effect statement = some schema

/-- Statements about rows leave tables as they are, if these have what is mentioned. -/
theorem run_onlyRows (hrows : ∀ st ∈ statements, OnlyRows st)
    (hknown : ∀ st ∈ statements, ∀ m ∈ st.mentions, schema.Knows m) :
    schema.run statements = some schema := by
  induction statements with
  | nil => rfl
  | cons statement rest ih =>
    have hexecute : schema.execute statement = some schema := by
      rw [execute, if_pos (hknown statement mem_cons_self)]
      exact hrows statement mem_cons_self schema
    rw [run_cons, hexecute]
    exact ih (fun st hst => hrows st (.tail _ hst)) fun st hst => hknown st (.tail _ hst)

end

/-- The statements of changes work on a store: tables and columns can be made
    in turn, and then there is what the statements that move rows mention. -/
structure Makes (schema : StoreSchema) (changes : List SchemaChange) (schema' : StoreSchema) :
    Prop where
  run : schema.run (changes.flatMap SchemaChange.statements) = some schema'
  moves : ∀ change ∈ changes, ∀ st ∈ change.moves, ∀ m ∈ st.mentions, schema'.Knows m

section

variable {schema schema' schema'' : StoreSchema} {changes more : List SchemaChange}

theorem makes_nil (schema : StoreSchema) : schema.Makes [] schema := ⟨rfl, forall_mem_nil _⟩

theorem Makes.within (h : schema.Makes changes schema') : schema.Within schema' := within_run h.run

theorem Makes.append (h : schema.Makes changes schema') (hmore : schema'.Makes more schema'') :
    schema.Makes (changes ++ more) schema'' where
  run := by
    rw [flatMap_append, run_append h.run]
    exact hmore.run
  moves := by
    intro change hchange st hst m hm
    rcases mem_append.1 hchange with hchange | hchange
    · exact hmore.within _ (h.moves change hchange st hst m hm)
    · exact hmore.moves change hchange st hst m hm

theorem onlyRows_moves (change : SchemaChange) : ∀ st ∈ change.moves, OnlyRows st := by
  intro st hst
  unfold SchemaChange.moves at hst
  split at hst
  · split at hst
    · cases hst
    · simp only [mem_cons, not_mem_nil, or_false] at hst
      rcases hst with rfl | rfl <;> exact fun _ => rfl
  · cases hst

theorem Makes.run_moves (h : schema.Makes changes schema') :
    schema.run (changes.flatMap SchemaChange.statements ++ changes.flatMap SchemaChange.moves) =
      some schema' := by
  rw [run_append h.run]
  refine run_onlyRows (fun st hst => ?_) fun st hst => ?_
  · obtain ⟨change, _, hst⟩ := mem_flatMap.1 hst
    exact onlyRows_moves change st hst
  · obtain ⟨change, hchange, hst⟩ := mem_flatMap.1 hst
    exact h.moves change hchange st hst

end

/-- A store has what a catalog says. Every table is there with the columns that
    its rows have, there are no tables for other arrays, and every column of
    values was made for something that the catalog knows. -/
structure InStep (schema : StoreSchema) (s : Snowflake) : Prop where
  present : ∀ n, n = .root ∨ n ∈ s.nested →
    schema.Knows (s.tableName n, s.reservedColumns (s.tableName n))
  cells : ∀ n column, s.HasCell n column → column ∈ schema.columnsOf (s.tableName n)
  absent : ∀ n, n ≠ .root → n ∉ s.nested → ¬schema.HasTable (s.tableName n)
  explained : ∀ n, ∀ column ∈ schema.columnsOf (s.tableName n), column ∈ reservedNames ∨
    ∃ path type, (path, type) ∈ s.labels ∧ path.isUnder n ∧
      column = (path.relativeTo n).typed type

section

open Snowflake

variable {schema : StoreSchema} {s : Snowflake} {path : Path} {type : DataType}

/-- A column that is new in the catalog is new in the store, also where
    columns have been left behind. -/
theorem InStep.not_mem_of_new (h : schema.InStep s) (hs : s.Laid) (hpath : path.Canonical)
    (htype : type.storage = type) (hnew : (path, type) ∉ s.labels) {n : Path}
    (hunder : path.isUnder n) :
    (path.relativeTo n).typed type ∉ schema.columnsOf (s.tableName n) := by
  intro hmem
  rcases h.explained n _ hmem with hreserved | ⟨p, t, hlabel, hpunder, hname⟩
  · exact Path.typed_not_reserved _ _ hreserved
  · obtain ⟨hcanonical, hstored, _⟩ := hs.of_label hlabel
    obtain ⟨rfl, hsame⟩ := Path.typed_relativeTo_inj hpath hcanonical hunder hpunder hname
    rw [htype, hstored] at hsame
    exact hnew (hsame ▸ hlabel)

theorem InStep.hasTable_home (h : schema.InStep s) (hs : s.Laid)
    (hbelow : type.isOutside → path ≠ .root) : schema.HasTable (s.tableName (s.homeOf path type)) :=
  (h.present _ (isHome_homeOf hs.toArraysOrdered hbelow).known).1

theorem InStep.of_sameLayout {s' : Snowflake} (h : schema.InStep s) (hs : s.Laid)
    (hsame : SameLayout s s') : schema.InStep s' := by
  have harrays : s.SameArrays s' := ⟨hs.of_sameLayout hsame, hsame.fact, hsame.nested⟩
  refine ⟨fun n hn => ?_, fun n column hcell => ?_, fun n hroot hn => ?_,
    fun n column hcolumn => ?_⟩
  · rw [reservedColumns_tableName, harrays.tableName, ← reservedColumns_tableName s]
    exact h.present n (harrays.nested ▸ hn)
  · obtain ⟨p, t, hlabel, ht, rfl, rfl⟩ := hcell
    rw [harrays.tableName, harrays.homeOf, harrays.columnName]
    exact h.cells _ _ ⟨p, t, hsame.labels ▸ hlabel, ht, rfl, rfl⟩
  · rw [harrays.tableName]
    exact h.absent n hroot (harrays.nested ▸ hn)
  · rw [harrays.tableName] at hcolumn
    rw [hsame.labels]
    exact h.explained n column hcolumn

theorem InStep.push (h : schema.InStep s) (hs : s.Laid) (hbelow : type.isOutside → path ≠ .root) :
    (schema.addTo (s.tableName (s.homeOf path type)) (s.columnName path type)).InStep
      (s.push (s.newColumn path type)) where
  present := fun n hn => within_addTo _ _ _ _ (h.present n hn)
  cells := by
    rintro n column ⟨p, t, hlabel, ht, rfl, rfl⟩
    refine mem_columnsOf_addTo.2 ?_
    rw [labels_push] at hlabel
    rcases mem_append.1 hlabel with hlabel | hlabel
    · exact .inr (h.cells _ _ ⟨p, t, hlabel, ht, rfl, rfl⟩)
    · obtain ⟨rfl, rfl⟩ := Prod.mk.inj (mem_singleton.1 hlabel)
      exact .inl ⟨rfl, rfl⟩
  absent := fun n hroot hn htable =>
    h.absent n hroot hn ((hasTable_addTo (h.hasTable_home hs hbelow)).1 htable)
  explained := by
    intro n column hcolumn
    rw [labels_push]
    rcases mem_columnsOf_addTo.1 hcolumn with ⟨htable, rfl⟩ | hcolumn
    · have hn : n = s.homeOf path type := tableName_inj (s := s) htable
      refine .inr ⟨path, type, mem_append_right _ (mem_singleton_self _), ?_, hn ▸ rfl⟩
      rw [hn]
      exact (isHome_homeOf hs.toArraysOrdered hbelow).under
    · refine (h.explained n column hcolumn).imp_right ?_
      rintro ⟨p, t, hlabel, hrest⟩
      exact ⟨p, t, mem_append_left _ hlabel, hrest⟩

theorem InStep.ensureColumn (h : schema.InStep s) (hs : s.Laid) (hpath : path.Canonical)
    (htype : type.storage = type) (hne : type ≠ .nested)
    (houtside : type.isOutside → path ∈ s.nested) :
    ∃ schema', schema.Makes (s.ensureColumn path type).2.1 schema' ∧
      schema'.InStep (s.ensureColumn path type).2.2 := by
  by_cases hlabel : (path, type) ∈ s.labels
  · refine ⟨schema, ?_⟩
    unfold Snowflake.ensureColumn
    split
    · exact ⟨makes_nil schema, h⟩
    next hnone => exact absurd hlabel (find?_eq_none_iff.1 hnone)
  · have hbelow : type.isOutside → path ≠ .root := fun hout hroot =>
      hs.not_root (hroot ▸ houtside hout)
    have hname := hs.physical_ensureColumn hne houtside
    rw [ensureColumn_of_new hlabel] at hname ⊢
    have hunder := (isHome_homeOf hs.toArraysOrdered hbelow).under
    have hadded : schema.execute (.addColumn (s.tableName (s.homeOf path type))
        (s.newColumn path type).physical type) = some _ :=
      execute_addColumn (h.hasTable_home hs hbelow)
        (hname ▸ h.not_mem_of_new hs hpath htype hlabel hunder)
    refine ⟨_, ⟨?_, fun change hchange st hst => ?_⟩, hname ▸ h.push hs hbelow⟩
    · change schema.run [.addColumn (s.tableName (s.homeOf path type))
        (s.newColumn path type).physical type] = _
      rw [run_cons, hadded]
      rfl
    · rw [mem_singleton.1 hchange] at hst
      cases hst

section

variable (h : schema.InStep s) (hs : s.Opens path)

include h hs

theorem InStep.run_arrayChanges : ∃ schema',
    schema.run ((s.arrayChanges path).flatMap SchemaChange.statements) = some schema' ∧
      (∀ n, schema'.HasTable (s.tableName n) ↔ n = path ∨ schema.HasTable (s.tableName n)) ∧
      ∀ n x, x ∈ schema'.columnsOf (s.tableName n) ↔
        (n = path ∧ (x ∈ [uidColumn, parentColumn, orderColumn] ∨
          ∃ m ∈ (s.relocated path).2, x = m.target)) ∨
        (n = s.nestedPathOf path ∧ x = (s.newCounter path).physical) ∨
        x ∈ schema.columnsOf (s.tableName n) := by
  have hhome := isHome_nestedPathOf hs.toArraysOrdered path
  obtain ⟨htable, hphysical⟩ := hs.newCounter_eq
  have hcounter :
    (s.newCounter path).physical ∉ schema.columnsOf (s.tableName (s.nestedPathOf path)) := by
    rw [hphysical]
    exact h.not_mem_of_new hs.toLaid hs.canonical_path rfl (hs.not_mem_labels hs.new).2 hhome.under
  have hreserved : ∀ m ∈ (s.relocated path).2, m.target ∉ reservedNames := by
    intro m hm
    obtain ⟨p, t, _, _, _, _, rfl⟩ := hs.mem_moves.1 hm
    exact Path.typed_not_reserved _ _
  rcases run_newTable .presence (h.absent path hs.not_at_root hs.new) (h.present _ hhome.known).1
    hcounter hs.nodup_targets hreserved with ⟨schema', hrun, htables, hcolumns⟩
  have hmigration : (s.migration path).flatMap SchemaChange.statements =
      (s.relocated path).2.map fun m => .addColumn (s.tableName path) m.target m.type := by
    unfold migration
    split
    next hnone =>
      rw [List.isEmpty_iff.1 (Bool.and_eq_true_iff.1 hnone).1]
      rfl
    · exact flatMap_singleton _ _
  have hinj : ∀ {a b : Path}, s.tableName a = s.tableName b ↔ a = b :=
    ⟨fun heq => tableName_inj heq, fun heq => heq ▸ rfl⟩
  refine ⟨schema', ?_, fun n => ?_, fun n x => ?_⟩
  · rw [← hrun, ← hmigration, ← htable]
    rfl
  · rw [htables, hinj]
  · rw [hcolumns, hinj, hinj]

theorem InStep.withTable : ∃ schema', schema.Makes (s.arrayChanges path) schema' ∧
    schema'.InStep (s.withTable path) := by
  obtain ⟨schema', hrun, htables, hcolumns⟩ := h.run_arrayChanges hs
  have hlaid := hs.withTable
  have hhome := isHome_nestedPathOf hs.toArraysOrdered path
  have hstep : schema'.InStep (s.withTable path) := by
    refine ⟨fun n hn => ?_, fun n column hcell => ?_, fun n hn hnone htable => ?_,
      fun n column hcolumn => ?_⟩
    · by_cases hself : n = path
      · refine ⟨(htables n).2 (.inl hself), fun column hcolumn => ?_⟩
        rw [reservedColumns_tableName, if_neg (hself ▸ hs.not_at_root)] at hcolumn
        exact (hcolumns n column).2 (.inl ⟨hself, .inl hcolumn⟩)
      · have hold := hn.imp_right fun hmem => (mem_nested_withTable.1 hmem).resolve_left hself
        exact within_run hrun _ (h.present n hold)
    · refine (hcolumns n column).2 ?_
      rcases hs.hasCell_withTable hcell with ⟨hn, hm⟩ | hcount | hold
      · exact .inl ⟨hn, .inr hm⟩
      · exact .inr (.inl hcount)
      · exact .inr (.inr (h.cells n column hold))
    · rcases (htables n).1 htable with heq | htable
      · exact hnone (mem_nested_withTable.2 (.inl heq))
      · exact h.absent n hn (fun hmem => hnone (mem_nested_withTable.2 (.inr hmem))) htable
    · rw [labels_withTable]
      rcases (hcolumns n column).1 hcolumn with ⟨rfl, hreserved | ⟨m, hm, rfl⟩⟩ | ⟨rfl, rfl⟩ | hold
      · exact .inl (reservedNames_of_mem hreserved)
      · obtain ⟨p, t, hlabel, _, hunder, _, rfl⟩ := hs.mem_moves.1 hm
        exact .inr ⟨p, t, mem_append_left _ hlabel, hunder, rfl⟩
      · exact Or.inr ⟨path, .presence, mem_append_right _ (by simp), hhome.under,
          hs.newCounter_eq.2⟩
      · refine (h.explained n column hold).imp_right ?_
        rintro ⟨p, t, hlabel, hrest⟩
        exact ⟨p, t, mem_append_left _ hlabel, hrest⟩
  refine ⟨schema', ⟨hrun, fun change hchange st hst => ?_⟩, hstep⟩
  -- the rows that move are in the table around the array, whose columns stay
  have hsources : schema'.Knows (s.tableName (s.nestedPathOf path),
      uidColumn :: (s.relocated path).2.map source) := by
    have hknown := h.present _ hhome.known
    refine within_run hrun _ ⟨hknown.1, forall_mem_cons.2 ⟨hknown.2 _ ?_, fun x hx => ?_⟩⟩
    · rw [reservedColumns_tableName]
      split <;> exact mem_cons_self
    · obtain ⟨m, hm, rfl⟩ := mem_map.1 hx
      obtain ⟨p, t, hlabel, ht, _, hmhome, rfl⟩ := hs.mem_moves.1 hm
      exact h.cells _ _ ⟨p, t, hlabel, ht, hmhome, rfl⟩
  have hreparent : ∀ table ∈ s.reparented path, schema'.Knows (table, [parentColumn]) := by
    refine forall_mem_map.2 fun n hn => ?_
    have hmem : n ∈ s.nested := (mem_filter.1 hn).1
    have hknown := h.present n (.inr hmem)
    refine within_run hrun _ ⟨hknown.1, forall_mem_singleton.2 (hknown.2 _ ?_)⟩
    rw [reservedColumns_tableName, if_neg fun heq : n = .root => hs.not_root (heq ▸ hmem)]
    exact mem_cons_of_mem _ mem_cons_self
  have hcondition := knows_conditionMentions hsources hreparent
  rcases mem_moves_arrayChanges hchange hst with rfl | rfl
  · refine forall_mem_cons.2 ⟨⟨(htables path).2 (.inl rfl), fun x hx => ?_⟩,
      forall_mem_cons.2 ⟨hsources, hcondition⟩⟩
    refine (hcolumns path x).2 (.inl ⟨rfl, (mem_append.1 hx).imp_right fun hx => ?_⟩)
    obtain ⟨m, hm, rfl⟩ := mem_map.1 hx
    exact ⟨m, hm, rfl⟩
  · refine forall_mem_cons.2 ⟨knows_cons.2 ⟨⟨hsources.1, ?_⟩, (knows_cons.1 hsources).2⟩,
      hcondition⟩
    exact forall_mem_singleton.2 ((hcolumns _ _).2 (.inr (.inl ⟨rfl, rfl⟩)))

end

end

end StoreSchema

end Snowbank
