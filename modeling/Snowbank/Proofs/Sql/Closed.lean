import Snowbank.Proofs.Ensures
import Snowbank.Proofs.Sql.Quoting

/-!
# Closed Pieces of SQL

Every way in which SQL is put together makes closed pieces of closed pieces.
That holds whatever a catalog contains: tables and columns have names that
come from documents, and enter as names only.

The proofs all have one form. A piece is a sequence of words and of pieces that
are closed already, and the words are looked at one by one.

## Theorems

* `isClosed_tableAlias`: The name of a table in a scope is closed.
* `isClosed_windowSql`: A window over closed pieces is closed.
-/

namespace Snowbank

open List Sql

open Sql (IsClosed isClosed_append isClosed_name isClosed_text isClosed_int
  isClosed_float)

namespace Sql

section Values

variable {v w : Sql}

variable {pieces terms : List Sql} {function : String}

theorem isClosed_numberText (h : v.IsClosed) : (numberText v).IsClosed := by
  unfold numberText
  simp +decide [h]

theorem isClosed_cast (h : v.IsClosed) (source target : DataType) :
    (v.cast source target).IsClosed := by
  unfold cast
  split
  · exact h
  · split
    · exact isClosed_numberText h
    · split
      · split <;> simp +decide [h]
      · split <;> simp +decide [h]

theorem isClosed_asText (h : v.IsClosed) (type : DataType) : (v.asText type).IsClosed := by
  unfold asText
  split
  · exact h
  · exact isClosed_cast h _ _

theorem isClosed_asNumber (h : v.IsClosed) (type : DataType) : (v.asNumber type).IsClosed := by
  unfold asNumber
  split
  · exact h
  · exact isClosed_cast h _ _

section

variable (h : ∀ p ∈ pieces, p.IsClosed)
include h

theorem isClosed_comma : (join ", " pieces).IsClosed :=
  isClosed_join (.word (by decide)) h

theorem isClosed_conjunction : (join " AND " pieces).IsClosed :=
  isClosed_join (.word (by decide)) h

theorem isClosed_coalesce : (coalesce pieces).IsClosed := by
  unfold coalesce
  simp +decide [isClosed_comma h]

end

theorem isClosed_struct {fields : List (String × Sql)} (h : ∀ f ∈ fields, f.2.IsClosed) :
    (struct fields).IsClosed := by
  have hfields : ∀ p ∈ fields.map fun f => name f.1 ++ " := " ++ f.2, p.IsClosed := by
    refine forall_mem_map.2 fun f hf => ?_
    simp +decide [h f hf]
  unfold struct
  split
  · exact .word (by decide)
  · simp +decide [isClosed_comma hfields]

theorem isClosed_parens (h : v.IsClosed) : v.parens.IsClosed := by
  unfold parens
  simp +decide [h]

theorem isClosed_negation (h : v.IsClosed) : v.negation.IsClosed := by
  unfold negation
  simp +decide [h]

theorem isClosed_connective {operator other : String} (hop : (word operator).IsClosed)
    (hother : (word other).IsClosed) (h : ∀ t ∈ terms, t.IsClosed) :
    (connective operator other terms).IsClosed := by
  unfold connective
  split
  · exact hother
  · exact isClosed_parens (isClosed_join hop h)

@[simp] theorem isClosed_sign (op : Inequality) : (word op.sign).IsClosed := by
  cases op <;> exact .word (by decide)

theorem isClosed_comparison (op : Inequality) (hv : v.IsClosed) (hw : w.IsClosed) :
    (comparison op v w).IsClosed := by
  unfold comparison
  simp +decide [hv, hw]

theorem isClosed_position (h : v.IsClosed) : v.position.IsClosed := by
  unfold position
  simp +decide [h]

theorem isClosed_allNull {values : List Sql} (h : ∀ v ∈ values, v.IsClosed) :
    (allNull values).IsClosed := by
  refine isClosed_conjunction fun p hp => ?_
  obtain ⟨v, hv, rfl⟩ := mem_map.1 hp
  exact (h v hv).append (.word (by decide))

theorem isClosed_orElse (hv : v.IsClosed) (hw : w.IsClosed) : (v.orElse w).IsClosed := by
  unfold orElse
  simp +decide [hv, hw]

theorem isClosed_arith (op : Arith) (hv : v.IsClosed) (hw : w.IsClosed) :
    (arith op v w).IsClosed := by
  cases op <;> unfold arith <;> simp +decide [hv, hw]

@[simp] theorem isClosed_foldSign (op : Fold) : (word (foldSign op)).IsClosed := by
  cases op <;> exact .word (by decide)

theorem isClosed_fold (op : Fold) (h : ∀ t ∈ terms, t.IsClosed)
    (nulls hasOther : Bool) (hw : w.IsClosed) : (fold op terms nulls hasOther w).IsClosed := by
  have hpadded : ∀ p ∈ terms.map fun t => orElse t (float op.identity), p.IsClosed := by
    refine forall_mem_map.2 fun t ht => ?_
    exact isClosed_orElse (h t ht) (isClosed_float _)
  have htotal : (parens (join (foldSign op) terms)).IsClosed :=
    isClosed_parens (isClosed_join (isClosed_foldSign op) h)
  unfold fold
  split
  · exact hw
  · split
    · simp +decide [isClosed_allNull h, hw, isClosed_join (isClosed_foldSign op) hpadded]
    · split
      · exact isClosed_orElse htotal hw
      · exact htotal

theorem isClosed_extreme (hf : (word function).IsClosed)
    (h : ∀ t ∈ terms, t.IsClosed) : (extreme function terms).IsClosed := by
  have hrotations : ∀ p ∈ (rotations terms).map coalesce, p.IsClosed := by
    refine forall_mem_map.2 fun ts hts => ?_
    obtain ⟨i, -, rfl⟩ := mem_map.1 hts
    refine isClosed_coalesce (forall_mem_append.2 ⟨?_, ?_⟩)
    · exact fun t ht => h t (mem_of_mem_drop ht)
    · exact fun t ht => h t (mem_of_mem_take ht)
  unfold extreme
  split
  · exact .word (by decide)
  · exact h _ (mem_singleton_self _)
  · simp +decide [hf, isClosed_comma hrotations]

theorem isClosed_side (op : Side) (hv : v.IsClosed) (hw : w.IsClosed) : (side op v w).IsClosed := by
  cases op <;> unfold side <;> simp +decide [hv, hw]

theorem isClosed_indexOf {u : Sql} (hv : v.IsClosed) (hw : w.IsClosed) (hu : u.IsClosed) :
    (indexOf v w u).IsClosed := by
  have hfound : ("strpos(substr(" ++ v ++ ", " ++ u ++ " + 1), " ++ w ++ ")" : Sql).IsClosed := by
    simp +decide [hv, hw, hu]
  unfold indexOf
  simp +decide [hfound, hu]

theorem isClosed_affix (hf : (word function).IsClosed) (hv : v.IsClosed)
    (hw : w.IsClosed) : (affix function v w).IsClosed := by
  unfold affix
  simp +decide [hf, hv, hw]

theorem isClosed_concat (h : ∀ t ∈ terms, t.IsClosed) (separator : String)
    (hw : w.IsClosed) : (concat terms separator w).IsClosed := by
  unfold concat
  split
  · exact hw
  · simp +decide [isClosed_allNull h, isClosed_comma h, hw]

end Values

end Sql

namespace Snowflake

variable (s : Snowflake)

@[simp] theorem isClosed_tableAlias (path : Path) : (s.tableAlias path).IsClosed := isClosed_name _

@[simp] theorem isClosed_table (path : Path) : (s.table path).IsClosed := isClosed_name _

@[simp] theorem isClosed_columnOf (path : Path) (column : String) :
    (s.columnOf path column).IsClosed :=
  isClosed_column (s.isClosed_tableAlias path) column

@[simp] theorem isClosed_belongs (child parent : Path) : (s.belongs child parent).IsClosed :=
  ((s.isClosed_columnOf _ _).append (.word (by decide))).append (s.isClosed_columnOf _ _)

theorem isClosed_joinChain {tables : Sql} (h : tables.IsClosed) (parent : Path)
    (chain : List Path) : (s.joinChain tables parent chain).IsClosed := by
  induction chain generalizing tables parent with
  | nil => exact h
  | cons child rest ih =>
    refine ih ?_ child
    unfold joinChild
    simp +decide [h]

theorem isClosed_merged (columns : List Column) (target : DataType) :
    (s.merged columns target).IsClosed := by
  have hvalues : ∀ p ∈ columns.map fun c => Sql.cast (s.stored c) c.type target, p.IsClosed := by
    intro p hp
    obtain ⟨c, -, rfl⟩ := mem_map.1 hp
    exact isClosed_cast (s.isClosed_columnOf _ _) _ _
  unfold merged
  split
  next hvalue => exact hvalues _ (hvalue ▸ mem_singleton_self _)
  · exact isClosed_coalesce hvalues

theorem isClosed_nestedList (nested : Path) {document : Sql} (h : document.IsClosed) :
    (s.nestedList nested document).IsClosed := by
  unfold nestedList
  simp +decide [h]

theorem isClosed_documentTo (level : Nat) (path : Path) : (s.documentTo level path).IsClosed := by
  -- by induction on the levels of arrays
  induction level generalizing path with
  | zero => exact .word (by decide)
  | succ level ih =>
    refine isClosed_struct (forall_mem_append.2 ⟨fun f hf => ?_, fun f hf => ?_⟩)
    · obtain ⟨c, -, rfl⟩ := mem_map.1 hf
      exact s.isClosed_columnOf _ _
    · obtain ⟨nested, -, rfl⟩ := mem_map.1 hf
      exact s.isClosed_nestedList nested (ih nested)

@[simp] theorem isClosed_document (path : Path) : (s.document path).IsClosed :=
  s.isClosed_documentTo _ path

end Snowflake

namespace Scope

variable (scope : Scope)

@[simp] theorem isClosed_tableAlias : scope.tableAlias.IsClosed := isClosed_name _

@[simp] theorem isClosed_fromClause : scope.fromClause.IsClosed := by
  have hfirst : (scope.snowflake.table .root ++ " " ++
      scope.snowflake.tableAlias .root).IsClosed := by
    exact ((scope.snowflake.isClosed_table _).append (.word (by decide))).append
      (scope.snowflake.isClosed_tableAlias _)
  unfold fromClause
  dsimp only
  split
  · exact hfirst
  · exact scope.snowflake.isClosed_joinChain hfirst _ _

/-- The tables, what ties them to a row, and the columns that order them. -/
theorem isClosed_correlatedFrom (deep : Path) :
    (scope.correlatedFrom deep).1.IsClosed ∧ (scope.correlatedFrom deep).2.1.IsClosed ∧
      ∀ p ∈ (scope.correlatedFrom deep).2.2, p.IsClosed := by
  have horders : ∀ p ∈ (scope.chainTo deep).map
      (fun n => scope.snowflake.columnOf n orderColumn), p.IsClosed := by
    intro p hp
    obtain ⟨n, -, rfl⟩ := mem_map.1 hp
    exact scope.snowflake.isClosed_columnOf _ _
  unfold correlatedFrom
  generalize scope.chainTo deep = chain at horders ⊢
  cases chain with
  | nil => exact ⟨isClosed_empty, .word (by decide), horders⟩
  | cons first rest =>
    refine ⟨scope.snowflake.isClosed_joinChain ?_ _ _, scope.snowflake.isClosed_belongs _ _,
      horders⟩
    exact ((scope.snowflake.isClosed_table _).append (.word (by decide))).append
      (scope.snowflake.isClosed_tableAlias _)

theorem isClosed_valueOf (path : Path) (type : DataType) : (scope.valueOf path type).IsClosed := by
  unfold valueOf
  dsimp only
  split
  · exact scope.snowflake.isClosed_document _
  · split
    · exact scope.snowflake.isClosed_document _
    · split
      · exact scope.snowflake.isClosed_columnOf _ _
      · split
        · split
          · exact scope.snowflake.isClosed_document _
          · exact .word (by decide)
        · exact scope.snowflake.isClosed_merged _ _

theorem isClosed_missingVar (path : Path) (type : DataType) :
    (scope.missingVar path type).IsClosed := by
  unfold missingVar
  split
  · exact .word (by decide)
  · split
    · exact .word (by decide)
    · refine isClosed_parens (isClosed_conjunction fun p hp => ?_)
      obtain ⟨c, -, rfl⟩ := mem_map.1 hp
      exact (scope.snowflake.isClosed_columnOf _ _).append (.word (by decide))

theorem isClosed_isTypeVar (type : DataType) (path : Path) :
    (scope.isTypeVar type path).IsClosed := by
  unfold isTypeVar
  split
  · exact .word (by decide)
  next c _ =>
    have hstored : (scope.snowflake.stored c).IsClosed := scope.snowflake.isClosed_columnOf _ _
    split <;> simp +decide [hstored]

theorem isClosed_shifted (path : Path) (shift : Int) : (scope.shifted path shift).IsClosed := by
  have hwindow :
      (") OVER (ORDER BY " ++ scope.tableAlias.column uidColumn ++ ")" : Sql).IsClosed := by
    simp +decide [isClosed_column]
  -- whatever the value is, it is closed, and so is what is made of it
  have hshifted : ∀ {value : Sql}, value.IsClosed → (if shift == 0 then value
        else if shift > 0 then "LEAD(" ++ value ++ ", " ++ Sql.int shift ++
          (") OVER (ORDER BY " ++ scope.tableAlias.column uidColumn ++ ")")
        else "LAG(" ++ value ++ ", " ++ Sql.int (-shift) ++
          (") OVER (ORDER BY " ++ scope.tableAlias.column uidColumn ++ ")")).IsClosed := by
    intro value hvalue
    split
    · exact hvalue
    · split <;> exact ((((IsClosed.word (by decide)).append hvalue).append
        (.word (by decide))).append (isClosed_int _)).append hwindow
  refine hshifted ?_
  split
  · exact scope.isClosed_valueOf _ _
  · exact scope.snowflake.isClosed_columnOf _ _
  · exact scope.snowflake.isClosed_merged _ _

theorem isClosed_collected (deep : Path) (e : Expr) {inner : Sql} (h : inner.IsClosed) :
    (scope.collected deep e inner).IsClosed := by
  obtain ⟨htables, htie, horders⟩ := scope.isClosed_correlatedFrom deep
  unfold collected
  dsimp only
  split
  · simp +decide [htables, htie, h]
  · split
    · simp +decide [htables, htie, h]
    · simp +decide [htables, htie, h, isClosed_comma horders]

section

variable {values : List Sql} (h : ∀ v ∈ values, v.IsClosed)

include h

theorem isClosed_zipWith {f : Sql → DataType → Sql} (hf : ∀ {v}, v.IsClosed → ∀ t, (f v t).IsClosed)
    (types : List DataType) : ∀ p ∈ List.zipWith f values types, p.IsClosed := by
  intro p hp
  rw [← map_uncurry_zip_eq_zipWith] at hp
  obtain ⟨⟨v, t⟩, hvt, rfl⟩ := mem_map.1 hp
  exact hf (h v (of_mem_zip hvt).1) t

theorem isClosed_naryOf (op : Nary) (types : List DataType) :
    (naryOf op types values).IsClosed := by
  have hnumbers : ∀ v ∈ numbers values types, v.IsClosed :=
    isClosed_zipWith h isClosed_asNumber types
  unfold naryOf
  cases op with
  | and | or => exact isClosed_connective (.word (by decide)) (.word (by decide)) h
  | coalesce =>
    dsimp only
    split
    · exact .word (by decide)
    · refine isClosed_coalesce (isClosed_zipWith h (fun hv t => ?_) types)
      split
      · exact isClosed_cast hv _ _
      · exact hv
  | min | max => exact isClosed_extreme (.word (by decide)) hnumbers
  | count =>
    dsimp only
    split
    · exact .word (by decide)
    · refine isClosed_parens (isClosed_join (.word (by decide)) fun p hp => ?_)
      obtain ⟨v, hv, rfl⟩ := mem_map.1 hp
      simp +decide [h v hv]
  | tuple => simp +decide [isClosed_comma h]

end

end Scope

namespace Aggregate

section

variable {x : Sql} (h : x.IsClosed)

include h

variable {function : String}

theorem isClosed_call (hf : (Sql.word function).IsClosed) : (call function x).IsClosed := by
  unfold call
  simp +decide [hf, h]

theorem isClosed_edgeValue (hf : (Sql.word function).IsClosed) :
    (edgeValue function x).IsClosed := by
  unfold edgeValue
  simp +decide [hf, h]

theorem isClosed_flattened : (flattened x).IsClosed := by
  unfold flattened
  simp +decide [h]

section

variable (aggregate : Aggregate)
include aggregate

theorem isClosed_overList (percentile : Option Float) :
    (aggregate.overList x percentile).IsClosed := by
  unfold overList
  cases aggregate with
  | none => exact h
  | sum | min | max | avg | median => exact isClosed_call h (.word (by decide))
  | first | last => exact h.append (.word (by decide))
  | count | cardinality | union => simp +decide [h]
  | stats =>
    refine IsClosed.append ?_ (.word (by decide))
    simp +decide [h]
  | percentile => simp +decide [share, h]

theorem isClosed_overRows (percentile : Option Float) :
    Ensures IsClosed (aggregate.overRows x percentile) := by
  cases aggregate with
  | none => exact .error _
  | count | sum | min | max | avg | median => exact .ok (isClosed_call h (.word (by decide)))
  | first | last => exact .ok (isClosed_edgeValue h (.word (by decide)))
  | cardinality | union =>
    refine .ok ?_
    simp +decide [h]
  | stats =>
    refine .ok (IsClosed.append ?_ (.word (by decide)))
    simp +decide [h]
  | percentile =>
    refine .ok ?_
    simp +decide [share, h]

theorem isClosed_sql (rows deep : Bool) (percentile : Option Float) :
    Ensures IsClosed (aggregate.sql x rows deep percentile) := by
  unfold sql
  split
  · refine .ok ?_
    simp +decide
  · split
    · exact .ok (isClosed_overList (isClosed_flattened h) aggregate percentile)
    · exact isClosed_overRows h aggregate percentile

theorem isClosed_windowSql : Ensures IsClosed (aggregate.windowSql x) := by
  cases aggregate with
  | none | last | first | count | sum | min | max | avg | median =>
    exact .ok (isClosed_call h (.word (by decide)))
  | percentile =>
    refine .ok ?_
    simp +decide [share, h]
  | cardinality | union | stats => exact .error _

end

end

end Aggregate

end Snowbank
