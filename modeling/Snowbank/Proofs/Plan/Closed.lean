import Snowbank.Proofs.Query.Scripts
import Snowbank.Proofs.Sql.Translated

/-!
# The SQL of Plans Is Closed

The statement of a query is put together from the SQL of its expressions,
from names and constants that are quoted, and from words of its own. So it ends
outside all quotations for each of the five shapes, as soon as no expression of
the query holds a script; and a query that is read from JSON holds none.

## Theorems

* `no_injection`: The statement of a query ends outside all quotations.
-/

namespace Snowbank

open List ResultColumn Sql

open Sql (IsClosed isClosed_append isClosed_name isClosed_int isClosed_float)

variable {c : SelectColumn} {value : Sql}

theorem Sql.isClosed_selectList {columns : List (Sql × String)} (h : ∀ c ∈ columns, c.1.IsClosed) :
    (selectList columns).IsClosed := by
  refine isClosed_comma fun p hp => ?_
  obtain ⟨c, hc, rfl⟩ := mem_map.1 hp
  exact ((h c hc).append (.word (by decide))).append (isClosed_name _)

theorem Sql.isClosed_numberedList {values : List Sql} (h : ∀ v ∈ values, v.IsClosed) :
    (numberedList values).IsClosed := by
  refine isClosed_selectList fun c hc => ?_
  obtain ⟨⟨v, i⟩, hv, rfl⟩ := mem_map.1 hc
  exact h v (fst_mem_of_mem_zipIdx hv)

theorem ResultColumn.isClosed_selectList {columns : List ResultColumn}
    (h : ∀ c ∈ columns, c.sql.IsClosed) : (selectList columns).IsClosed :=
  isClosed_numberedList (forall_mem_map.2 h)

namespace Plan

variable {q : Query} (scope : Scope)

theorem isClosed_sortTerm (h : value.IsClosed) (direction : Int) :
    ∀ t ∈ sortTerm? value direction, t.IsClosed := by
  intro t ht
  unfold sortTerm? at ht
  split at ht
  · cases ht
    exact h.append (.word (by decide))
  · split at ht
    · cases ht
      exact h.append (.word (by decide))
    · cases ht

theorem closed_sortTerms {keys : List SortKey} (h : ∀ k ∈ keys, k.value.ScriptFree) :
    Ensures (fun ts => ∀ t ∈ ts, t.IsClosed) (sortTerms scope keys) := by
  refine Ensures.bind (P := fun ts => ∀ t ∈ ts, ∀ v ∈ t, v.IsClosed) (.mapM fun k hk => ?_)
    fun terms hterms => .pure fun v hv => ?_
  · exact (scope.closed_translate (h k hk)).map fun v hv => isClosed_sortTerm hv _
  · obtain ⟨t, ht, rfl⟩ := mem_filterMap.1 hv
    exact hterms _ ht v rfl

@[simp] theorem isClosed_limitSql (q : Query) : (limitSql q).IsClosed := isClosed_int _

@[simp] theorem isClosed_countSql (n : Nat) : (countSql n).IsClosed := isClosed_int _

@[simp] theorem isClosed_rowsTable : rowsTable.IsClosed := isClosed_name _

@[simp] theorem isClosed_factsTable : factsTable.IsClosed := isClosed_name _

@[simp] theorem isClosed_indexedTable : indexedTable.IsClosed := isClosed_name _

@[simp] theorem isClosed_primaryTable : primaryTable.IsClosed := isClosed_name _

@[simp] theorem isClosed_domainTable (k : Nat) : (domainTable k).IsClosed := isClosed_name _

section

theorem scriptFree_storedValue (path : Path) (types : List DataType) :
    (storedValue path types).ScriptFree := by
  unfold storedValue
  split
  · exact Expr.scriptFree_var _ _
  · split
    · simp
    · exact Expr.scriptFree_var _ _

theorem closed_project (name : String) {value : Expr} (h : value.ScriptFree)
    (default : Option Json) :
    Ensures (fun cs => ∀ c ∈ cs, c.sql.IsClosed) (project scope name value default) := by
  unfold project
  split
  · refine (scope.closed_translate h).bind fun v hv => .pure (forall_mem_singleton.2 ?_)
    split
    · exact isClosed_orElse hv (isClosed_value _)
    · exact hv
  next terms hterms =>
    have hcolumns : Ensures (fun cs => ∀ c ∈ cs, c.sql.IsClosed) (terms.mapM fun term =>
        (scope.translate term).map fun sql => plain sql name term.dataType) :=
      .mapM fun t ht => (scope.closed_translate (Expr.over_alternatives h hterms t ht)).map
        fun v hv => hv
    refine hcolumns.bind fun columns hcolumns => ?_
    split
    · exact .pure hcolumns
    · refine (scope.closed_translate h.missing).bind fun test htest => .pure ?_
      refine forall_mem_append.2 ⟨hcolumns, forall_mem_singleton.2 ?_⟩
      rw [plain]
      simp +decide [htest]

theorem closed_selected (h : c.value.ScriptFree) :
    Ensures (fun cs => ∀ c ∈ cs, c.sql.IsClosed) (selected scope c) := by
  unfold selected
  split
  · refine Ensures.bind (P := fun cs => ∀ c ∈ cs, ∀ r ∈ c, ResultColumn.sql r |>.IsClosed)
      (.mapM fun leaf hleaf => ?_) fun columns hcolumns => .pure ?_
    · obtain ⟨name, -, rfl⟩ := mem_map.1 hleaf
      exact closed_project scope _ (scriptFree_storedValue _ _) none
    · exact forall_mem_flatten.2 hcolumns
  · split
    · exact .ok (forall_mem_singleton.2 (scope.snowflake.isClosed_document _))
    · exact closed_project scope _ h _

theorem isClosed_frameBound (offset : Option Int) {side : String}
    (h : (Sql.word side).IsClosed) : (frameBound offset side).IsClosed := by
  unfold frameBound
  split
  · exact (IsClosed.word (by decide)).append h
  · split
    · exact .word (by decide)
    · split <;> exact (isClosed_int _).append (.word (by decide))

variable {w : Window} (h : ∀ e ∈ w.exprs, e.ScriptFree)

include h

theorem closed_overSql : Ensures IsClosed (overSql scope w) := by
  simp only [Window.exprs, forall_mem_append, forall_mem_map] at h
  refine Ensures.bind (.mapM fun e he => scope.closed_translate (h.1.2 e he)) fun edges hedges => ?_
  refine (closed_sortTerms scope h.2).bind fun keys hkeys => ?_
  have horder : ∀ t ∈ (if keys.isEmpty then
      (sortTerm? (scope.tableAlias.column uidColumn) 1).toList else keys), t.IsClosed := by
    split
    · intro t ht
      exact isClosed_sortTerm (isClosed_column scope.isClosed_tableAlias _) 1 t
        (Option.mem_toList.1 ht)
    · exact hkeys
  have hsort : (Sql.word "ORDER BY ").IsClosed := .word (by decide)
  have hsorted := hsort.append (isClosed_comma horder)
  dsimp only
  split
  · exact .pure hsorted
  · refine .pure ?_
    exact (((IsClosed.word (by decide)).append (isClosed_comma hedges)).append
      (.word (by decide))).append hsorted

theorem closed_windowSql : Ensures IsClosed (windowSql scope w) := by
  refine (closed_overSql scope h).bind fun window hwindow => ?_
  split
  · refine .pure ?_
    simp +decide [hwindow]
  next value hvalue =>
    have hfree : value.ScriptFree := h value (by simp [Window.exprs, hvalue])
    refine (scope.closed_translate hfree).bind fun v hv => ?_
    split
    · exact .pure hv
    · refine (w.aggregate.isClosed_windowSql hv).bind fun function hfunction => .pure ?_
      have hfirst : ∀ n, (frameBound n "PRECEDING").IsClosed :=
        fun n => isClosed_frameBound n (.word (by decide))
      have hlast : ∀ n, (frameBound n "FOLLOWING").IsClosed :=
        fun n => isClosed_frameBound n (.word (by decide))
      simp +decide [hfunction, hwindow, hfirst, hlast]

end

theorem closed_factValue (h : c.value.ScriptFree) (i : Nat) :
    Ensures (fun vs => ∀ v ∈ vs, v.1.IsClosed) (factValue scope c i) := by
  unfold factValue
  split
  · exact .ok (forall_mem_nil _)
  · split
    · exact .error _
    · exact (scope.closed_translate h).map fun v hv => forall_mem_singleton.2 hv

theorem closed_factValues {select : List SelectColumn} (h : ∀ c ∈ select, c.value.ScriptFree) :
    Ensures (fun vs => ∀ v ∈ vs, v.1.IsClosed) (factValues scope select) := by
  have hvalues : Ensures (fun cs => ∀ vs ∈ cs, ∀ v ∈ vs, v.1.IsClosed)
      (select.zipIdx.mapM fun c => factValue scope c.1 c.2) :=
    .mapM fun c hc => closed_factValue scope (h c.1 (fst_mem_of_mem_zipIdx hc)) c.2
  refine hvalues.bind fun values hvalues => .pure (forall_mem_cons.2 ⟨?_, ?_⟩)
  · exact isClosed_column scope.isClosed_tableAlias _
  · exact forall_mem_flatten.2 hvalues

theorem isClosed_withDefault (c : SelectColumn) {v : Sql} (h : v.IsClosed) :
    (withDefault c v).IsClosed := by
  unfold withDefault
  split
  · exact isClosed_orElse h (isClosed_value _)
  · exact h

theorem closed_selectAggregate (c : SelectColumn) (i : Nat) :
    Ensures Sql.IsClosed (selectAggregate scope c i) := by
  exact .after fun deep => (Aggregate.isClosed_sql (isClosed_name _) _ _ _ _).bind fun v hv =>
    .pure (isClosed_withDefault c hv)

theorem closed_outputOrder (q : Query) (names : List String) :
    Ensures (fun ts => ∀ t ∈ ts, t.IsClosed) (outputOrder q names) := by
  refine Ensures.bind (P := fun ts => ∀ t ∈ ts, ∀ v ∈ t, v.IsClosed) (.mapM fun k _ => ?_)
    fun terms hterms => .pure fun v hv => ?_
  · split
    · exact .ok (isClosed_sortTerm (isClosed_name _) _)
    · exact .error _
  · obtain ⟨t, ht, rfl⟩ := mem_filterMap.1 hv
    exact hterms _ ht v rfl

theorem closed_groupedSelect (q : Query) (c : SelectColumn) (i : Nat) :
    Ensures (fun c => c.sql.IsClosed) (groupedSelect q scope c i) := by
  unfold groupedSelect
  split
  · split
    · exact .pure (isClosed_name _)
    · exact .throw _
  · exact (closed_selectAggregate scope c i).bind fun v hv => .pure hv

theorem closed_groupClause (q : Query) : Ensures Sql.IsClosed (groupClause q) := by
  have hgroups : ∀ g ∈ (List.range q.groupby.length).map fun i => Sql.name (groupColumn i),
      g.IsClosed := forall_mem_map.2 fun i _ => isClosed_name _
  refine (closed_outputOrder q _).bind fun order horder => .pure ?_
  generalize (List.range q.groupby.length).map (fun i => Sql.name (groupColumn i)) = groups at *
  have hterms : ∀ t ∈ (if order.isEmpty then groups.filterMap fun g => sortTerm? g 1 else order),
      t.IsClosed := by
    split
    · intro t ht
      obtain ⟨g, hg, ht⟩ := mem_filterMap.1 ht
      exact isClosed_sortTerm (hgroups g hg) 1 t ht
    · exact horder
  simp +decide only [isClosed_append, isClosed_word_iff, isClosed_comma hgroups,
    isClosed_comma hterms, isClosed_limitSql]

theorem isClosed_partitionIndex (edge : Edge) (h : value.IsClosed)
    (type : DataType) : (partitionIndex edge value type).IsClosed := by
  have houtside : ∀ n, (if edge.allowNulls then countSql n else "NULL").IsClosed := by
    intro n
    split
    · exact isClosed_countSql n
    · exact .word (by decide)
  unfold partitionIndex
  dsimp only
  split
  · split <;> simp +decide [h]
  next partitions _ =>
    have hclauses : ∀ c ∈ (partitions.zipIdx.filter fun p => isPartitionOf type p.1).map
        (fun p => "WHEN " ++ value ++ " = " ++ Sql.value p.1 ++ " THEN " ++ Sql.int p.2),
        c.IsClosed := by
      refine forall_mem_map.2 fun p _ => ?_
      simp +decide [h]
    split
    · exact houtside _
    · have hblank : (Sql.word " ").IsClosed := .word (by decide)
      have hjoined := Sql.isClosed_join hblank hclauses
      simp +decide [hjoined, houtside]
  · simp +decide [h, houtside]

@[simp] theorem isClosed_partitionRows (edge : Edge) (k : Nat) :
    (partitionRows edge k).IsClosed := by
  unfold partitionRows
  split
  · split <;> simp +decide
  · simp +decide
  · simp +decide

theorem closed_edgeOrder (q : Query) : Ensures (fun ts => ∀ t ∈ ts, t.IsClosed) (edgeOrder q) := by
  have hnatural : ∀ t ∈ (List.range q.edges.length).reverse.map fun k =>
      (domainTable k).column (indexColumn k) ++ " ASC NULLS LAST", t.IsClosed :=
    forall_mem_map.2 fun k _ =>
      (isClosed_column (isClosed_name _) _).append (.word (by decide))
  unfold edgeOrder
  split
  · exact (closed_outputOrder q _).bind fun order horder =>
      .pure (forall_mem_append.2 ⟨horder, hnatural⟩)
  · exact .pure hnatural

section

variable (s : Snowflake) (root : Path) (tables : List TableLayout)

theorem isClosed_branchValues (index : Nat) (chain : List Nat) :
    ∀ v ∈ branchValues s root tables index chain, v.IsClosed := by
  have hnull : (Sql.word "NULL").IsClosed := .word (by decide)
  simp only [branchValues, forall_mem_append, forall_mem_cons, forall_mem_flatMap, forall_mem_map]
  refine ⟨⟨⟨isClosed_int _, s.isClosed_columnOf _ _, ?_, isClosed_column (isClosed_name _) _,
    forall_mem_nil _⟩, fun d _ => ?_⟩, fun path _ c _ => ?_⟩
  · split
    · exact hnull
    · exact s.isClosed_columnOf _ _
  · split
    · exact forall_mem_cons.2
        ⟨isClosed_int _, forall_mem_singleton.2 (s.isClosed_columnOf _ _)⟩
    · exact forall_mem_cons.2 ⟨hnull, forall_mem_singleton.2 hnull⟩
  · split
    · exact s.isClosed_columnOf _ _
    · exact hnull

theorem isClosed_branch (index : Nat) : (branch scope tables index).IsClosed := by
  have hcolumn : ∀ {t : Sql} {c : String}, t.IsClosed → (t.column c).IsClosed :=
    fun h => isClosed_column h _
  refine IsClosed.append (IsClosed.append (IsClosed.append (.word (by decide)) ?_)
    (.word (by decide))) (Snowflake.isClosed_joinChain _ ?_ _ _)
  · exact isClosed_numberedList (isClosed_branchValues _ _ _ _ _)
  · simp +decide [hcolumn]

theorem isClosed_documentOrder (depth : Nat) : ∀ t ∈ documentOrder depth, t.IsClosed := by
  simp only [documentOrder, forall_mem_cons, forall_mem_flatMap, isClosed_append,
    isClosed_name, true_and]
  exact ⟨.word (by decide),
    fun _ _ => ⟨.word (by decide), .word (by decide), forall_mem_nil _⟩⟩

end

section

variable (h : q.ScriptFree)

include h

theorem closed_rows : Ensures (fun plan => plan.sql.IsClosed) (rows q scope) := by
  have hselects : Ensures (fun cs => ∀ c ∈ cs, ∀ r ∈ c, ResultColumn.sql r |>.IsClosed)
      (q.select.mapM (selected scope)) := .mapM fun c hc => closed_selected scope (h.select c hc)
  have hwindows : Ensures (fun cs => ∀ c ∈ cs, c.sql.IsClosed)
      (q.window.mapM (windowColumn scope)) :=
    .mapM fun w hw => (closed_windowSql scope (h.window w hw)).map fun _ hv => hv
  refine hselects.bind fun selects hselects => hwindows.bind fun windows hwindows =>
    (scope.closed_translate h.filter).bind fun filter hfilter =>
      (closed_sortTerms scope fun k hk => (h.sort k hk).1).bind fun order horder => .pure ?_
  have hcolumns := isClosed_selectList
    (forall_mem_append.2 ⟨forall_mem_flatten.2 hselects, hwindows⟩)
  split <;> simp +decide [hcolumns, hfilter, isClosed_comma horder]

theorem closed_rowsCte : Ensures Sql.IsClosed (rowsCte q scope) := by
  have huid : ∀ c, (scope.tableAlias.column c).IsClosed := isClosed_column scope.isClosed_tableAlias
  refine (closed_sortTerms scope fun k hk => (h.sort k hk).1).bind fun keys hkeys =>
    (scope.closed_translate h.filter).bind fun filter hfilter => .pure ?_
  have horder : (Sql.join ", " (keys ++ [scope.tableAlias.column uidColumn ++ " ASC"])).IsClosed :=
    isClosed_comma (forall_mem_append.2 ⟨hkeys, forall_mem_singleton.2
      ((huid _).append (.word (by decide)))⟩)
  simp +decide [huid, horder, hfilter]

theorem closed_wholeDocuments :
    Ensures (fun plan => plan.sql.IsClosed) (wholeDocuments q scope) := by
  refine (closed_rowsCte scope h).bind fun rows hrows => .pure ?_
  have hbranches := Sql.isClosed_join (show (Sql.word " UNION ALL ").IsClosed from
    (.word (by decide))) (forall_mem_map.2 fun i
      (_ : i ∈ List.range (layout scope.snowflake scope.path).tables.length) =>
        isClosed_branch scope (layout scope.snowflake scope.path).tables i)
  simp +decide [hrows, hbranches, isClosed_comma (isClosed_documentOrder _)]

theorem closed_grouped (shape : Shape) :
    Ensures (fun plan => plan.sql.IsClosed) (grouped q scope shape) := by
  have hkeys : Ensures (fun ks => ∀ k ∈ ks, k.1.IsClosed) (q.groupby.zipIdx.mapM fun g =>
      (scope.translate g.1.value).map fun sql => (sql, groupColumn g.2)) :=
    .mapM fun g hg => (scope.closed_translate (h.groupby g.1 (fst_mem_of_mem_zipIdx hg))).map
      fun _ hv => hv
  have hselects : Ensures (fun cs => ∀ c ∈ cs, c.sql.IsClosed)
      (q.select.zipIdx.mapM fun c => groupedSelect q scope c.1 c.2) :=
    .mapM fun c _ => closed_groupedSelect scope q c.1 c.2
  have hgroups : ∀ c ∈ q.groupby.zipIdx.map fun g =>
      plain (.name (groupColumn g.2)) g.1.name g.1.value.dataType, c.sql.IsClosed :=
    forall_mem_map.2 fun _ _ => isClosed_name _
  refine (closed_factValues scope h.select).bind fun values hvalues =>
    hkeys.bind fun keys hkeys => hselects.bind fun selects hselects =>
      (scope.closed_translate h.filter).bind fun filter hfilter => ?_
  have hfacts := isClosed_selectList (forall_mem_append.2 ⟨hvalues, hkeys⟩)
  have hcolumns := isClosed_selectList (forall_mem_append.2 ⟨hgroups, hselects⟩)
  have hbody : ("WITH " ++ factsTable ++ " AS (SELECT " ++ selectList (values ++ keys) ++
      " FROM " ++ scope.fromClause ++ " WHERE " ++ filter ++ ") SELECT " ++
      selectList (q.groupby.zipIdx.map (fun g =>
        plain (.name (groupColumn g.2)) g.1.name g.1.value.dataType) ++ selects) ++
      " FROM " ++ factsTable).IsClosed := by
    simp +decide [hfacts, hcolumns, hfilter]
  split
  · refine Ensures.bind ((closed_groupClause q).map fun clause hclause => ?_) fun _ hv => .pure hv
    exact hbody.append hclause
  · exact .pure hbody

theorem closed_edges : Ensures (fun plan => plan.sql.IsClosed) (edges q scope) := by
  have hkeys : Ensures (fun ks => ∀ k ∈ ks, k.1.IsClosed) (q.edges.zipIdx.mapM fun e =>
      (scope.translate e.1.value).map fun sql => (sql, edgeColumn e.2)) :=
    .mapM fun e he => (scope.closed_translate (h.edges e.1 (fst_mem_of_mem_zipIdx he))).map
      fun _ hv => hv
  have haggregates : Ensures (fun vs => ∀ v ∈ vs, v.1.IsClosed) (q.select.zipIdx.mapM fun c =>
      (selectAggregate scope c.1 c.2).map fun sql => (sql, aggregateColumn c.2)) :=
    .mapM fun c _ => (closed_selectAggregate scope c.1 c.2).map fun _ hv => hv
  have hindexes : (selectList (q.edges.zipIdx.map fun e =>
      (partitionIndex e.1 (.name (edgeColumn e.2)) e.1.value.dataType,
        indexColumn e.2))).IsClosed :=
    isClosed_selectList (forall_mem_map.2 fun _ _ =>
      isClosed_partitionIndex _ (isClosed_name _) _)
  have hdomains : (Sql.join ", " (q.edges.zipIdx.map fun e =>
      domainTable e.2 ++ " AS (" ++ partitionRows e.1 e.2 ++ ")")).IsClosed := by
    refine isClosed_comma (forall_mem_map.2 fun _ _ => ?_)
    simp +decide
  have hgroups : (Sql.join ", " (q.edges.zipIdx.map fun e =>
      Sql.name (indexColumn e.2))).IsClosed :=
    isClosed_comma (forall_mem_map.2 fun _ _ => isClosed_name _)
  have hcolumns : (selectList (q.edges.zipIdx.flatMap (fun e => edgeColumns e.1 e.2) ++
      q.select.zipIdx.map fun c => edgeSelect c.1 c.2)).IsClosed := by
    refine isClosed_selectList (forall_mem_append.2
      ⟨forall_mem_flatMap.2 fun _ _ => ?_, forall_mem_map.2 fun c _ => ?_⟩)
    · exact forall_mem_cons.2 ⟨isClosed_column (isClosed_name _) _,
        forall_mem_singleton.2 (isClosed_column (isClosed_name _) _)⟩
    · exact isClosed_withDefault c.1 (isClosed_column (isClosed_name _) _)
  have hcells : (Sql.join " CROSS JOIN " (q.edges.zipIdx.map fun e => domainTable e.2)).IsClosed :=
    Sql.isClosed_join (.word (by decide)) (forall_mem_map.2 fun _ _ => isClosed_name _)
  have hties : (Sql.join " AND " (q.edges.zipIdx.map fun e =>
      primaryTable.column (indexColumn e.2) ++ " IS NOT DISTINCT FROM " ++
        (domainTable e.2).column (indexColumn e.2))).IsClosed :=
    isClosed_conjunction (forall_mem_map.2 fun _ _ =>
      ((isClosed_column (isClosed_name _) _).append (.word (by decide))).append
        (isClosed_column (isClosed_name _) _))
  -- what can fail comes first, in the order in which it is made
  refine (closed_factValues scope h.select).bind fun values hvalues =>
    hkeys.bind fun keys hkeys => (scope.closed_translate h.filter).bind fun filter hfilter =>
      haggregates.bind fun aggregates haggregates =>
        (closed_edgeOrder q).bind fun order horder => .pure ?_
  have hfacts := isClosed_selectList (forall_mem_append.2 ⟨hvalues, hkeys⟩)
  have hprimary : (if aggregates.isEmpty then
      Sql.join ", " (q.edges.zipIdx.map fun e => Sql.name (indexColumn e.2))
      else Sql.join ", " (q.edges.zipIdx.map fun e => Sql.name (indexColumn e.2)) ++ ", " ++
        selectList aggregates).IsClosed := by
    split
    · exact hgroups
    · exact (hgroups.append (.word (by decide))).append (isClosed_selectList haggregates)
  split <;> simp +decide only [isClosed_append, isClosed_word_iff, isClosed_factsTable,
    isClosed_indexedTable, isClosed_primaryTable, hfacts, scope.isClosed_fromClause, hfilter,
    hindexes, hdomains, hprimary, hgroups, hcolumns, hcells, hties, isClosed_comma horder,
    isClosed_limitSql]

end

end Plan

theorem Query.closed_plan {q : Query} (h : q.ScriptFree) (s : Snowflake) :
    Ensures (fun plan => plan.sql.IsClosed) (q.plan s) := by
  unfold Query.plan
  split
  · exact .error _
  · split
    · exact .error _
    · dsimp only
      split
      · exact .error _
      · split
        · exact Plan.closed_rows _ h
        · exact Plan.closed_wholeDocuments _ h
        · exact Plan.closed_grouped _ h _
        · exact Plan.closed_grouped _ h _
        · exact Plan.closed_edges _ h

/-- A query from outside puts nothing but words, quoted names and quoted texts into a statement: no
    expression of it holds a script, and its statement ends outside all quotations, for every schema
    that it is read against and every catalog that it is planned for. -/
theorem Query.no_injection {now : Float} {schema : Schema} {jx : Json} {q : Query} {s : Snowflake}
    {plan : Plan} (hread : Query.ofJson now schema jx = .ok q) (hplan : q.plan s = .ok plan) :
    (∀ e ∈ q.exprs, ∀ n ∈ e.nodes, n.isScript = false) ∧
      Lexical.scan .outside plan.sql.render.toList = .outside := by
  have hfree : q.ScriptFree := scriptFree_ofJson now schema jx q hread
  exact ⟨hfree.exprs, (closed_plan hfree s plan hplan).scan_render⟩

/-- A query with quotation marks in the name of the collection and in a text. -/
def Query.quotations : Json := .obj [("from", .str "o'\"k"),
    ("select", .obj [("name", .str "n"), ("value", .obj [("literal", .str "it's \"x\"")])])]

theorem Query.no_injection_quotations : ∃ q plan,
    Query.ofJson 2.5 .untyped quotations = .ok q ∧ q.plan (.empty "o'\"k") = .ok plan ∧
      plan.sql.render =
        "SELECT 'it''s \"x\"' AS \"__c0\" FROM \"o'\"\"k\" \"__t0\" WHERE TRUE LIMIT 10" ∧
      (∀ e ∈ q.exprs, ∀ n ∈ e.nodes, n.isScript = false) ∧
      Lexical.scan .outside plan.sql.render.toList = .outside := by
  let q : Query := ⟨"o'\"k", "o'\"k", Path.root, [.plain "n" (.const (.str "it's \"x\""))], true,
    .yes, [], [], [], [], defaultLimit, .list, fingerprintOf quotations⟩
  have hpass : Expr.pass? .untyped (.const (.str "it's \"x\"")) =
      some (.const (.str "it's \"x\"")) := by
    rw [Expr.pass?_eq _ rfl, Expr.passOperands?]
    · rfl
    all_goals intros; contradiction
  have hread : Query.ofJson 2.5 .untyped quotations = .ok q := by
    dsimp only [q]
    rw [← Expr.simplify_of_pass hpass]
    rfl
  obtain ⟨plan, hplan, hrender⟩ : ∃ plan, q.plan (.empty "o'\"k") = .ok plan ∧ plan.sql.render =
      "SELECT 'it''s \"x\"' AS \"__c0\" FROM \"o'\"\"k\" \"__t0\" WHERE TRUE LIMIT 10" :=
    ⟨_, rfl, by decide +kernel⟩
  exact ⟨q, plan, hread, hplan, hrender, no_injection hread hplan⟩

end Snowbank
