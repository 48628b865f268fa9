import Snowbank.Proofs.Ensures
import Snowbank.Proofs.Expr.Over

/-!
# What Holds of the Expressions of a Query

A query reads its expressions from parts of a JSON value, each from the same
perspective. Edges, groups, windows and sort keys may read the rows of the query
and what is around them, columns and the filter also what is inside. So what
holds of every expression that is read with such a reach holds of the
expressions of a query, wherever they stand.

## Main definitions

* `Holds`: The property holds of the expressions of a query.
* `Reads`: What is read from a perspective has the property.

## Theorems

* `holds_ofJson`: It holds of a query that is read.
-/

namespace Snowbank

open List Ordered
open SelectColumn (listOfJson ofJson rawValue value)

def Window.exprs (w : Window) : List Expr := w.value.toList ++ w.edges ++ w.sort.map SortKey.value

def Query.exprs (q : Query) : List Expr :=
  q.filter :: q.select.map value ++ q.edges.map Edge.value ++
    q.groupby.map GroupBy.value ++ q.sort.map SortKey.value ++ q.window.flatMap Window.exprs

/-- `S` holds of the expressions that need one value for each row, `T` of all.
    A sort key that names a column of the answer is what that column is. -/
structure Query.Holds (S T : Expr → Prop) (q : Query) : Prop where
  filter : T q.filter
  select : ∀ c ∈ q.select, T c.value
  edges : ∀ e ∈ q.edges, S e.value
  groupby : ∀ g ∈ q.groupby, S g.value
  sort : ∀ k ∈ q.sort, T k.value ∧ (k.column = none → S k.value)
  window : ∀ w ∈ q.window, ∀ e ∈ w.exprs, S e

theorem Query.Holds.exprs {T : Expr → Prop} {q : Query} (h : q.Holds T T) : ∀ e ∈ q.exprs, T e := by
  simp only [Query.exprs, forall_mem_cons, forall_mem_append, forall_mem_map,
    forall_mem_flatMap, cons_append]
  exact ⟨h.filter, ⟨⟨⟨h.select, h.edges⟩, h.groupby⟩, fun k hk => (h.sort k hk).1⟩, h.window⟩

/-- `D` goes from a value to its parts, and what is read from a value of which
    it holds has the property `S` or, with a deep reach, `T`. -/
structure Perspective.Reads (p : Perspective) (D : Json → Prop) (S T : Expr → Prop) : Prop where
  text : ∀ t, D (.str t)
  items : ∀ {items}, D (.arr items) → ∀ v ∈ items, D v
  fields : ∀ {fields}, D (.obj fields) → ∀ f ∈ fields, D f.2
  shallow : ∀ v, D v → Ensures S (p.expr .shallow v)
  deep : ∀ v, D v → Ensures T (p.expr .deep v)
  filter : ∀ v, D v → Ensures T (p.filter v)
  always : T .yes
  whole : T (.field .root)
  leaves : T (.leaves .root)
  weaken : ∀ {e}, S e → T e
  numeric : ∀ {e}, S e → S e.numericOnly
  numericDeep : ∀ {e}, T e → T e.numericOnly

theorem Expr.Over.numericOnly {P : Expr → Prop} [Inherited P] {e : Expr} (h : e.Over P) :
    e.numericOnly.Over P := by
  unfold Expr.numericOnly
  split
  · exact h
  next terms hterms =>
    have hkept := over_filter (·.dataType.isNumeric) (over_alternatives h hterms)
    generalize terms.filter (·.dataType.isNumeric) = kept at hkept
    split
    · exact over_const _
    · exact hkept _ mem_cons_self
    · exact over_nary.2 hkept

namespace Perspective.Reads

variable {p : Perspective} {D : Json → Prop} {S T : Expr → Prop} (h : p.Reads D S T)
  {value : Json} {fields : Fields}

include h

theorem asList (hv : D value) : ∀ v ∈ value.asList, D v := by
  cases value with
  | arr items => exact h.items hv
  | _ => exact forall_mem_singleton.2 hv

theorem get? {key : String} (hv : D (.obj fields)) (hkey : get? key fields = some value) :
    D value :=
  h.fields hv _ (mem_of_get? hkey)

theorem readValue (hv : D value) : Ensures T (SelectColumn.readValue p value) := by
  unfold SelectColumn.readValue
  split
  · exact .ok h.whole
  · exact .ok h.leaves
  · exact h.deep _ hv

theorem selectColumn (hv : D value) : Ensures (fun c => T c.value) (ofJson p value) := by
  unfold ofJson
  split
  · exact .ok h.whole
  · exact .ok h.leaves
  · exact (h.deep _ hv).map fun _ h => h
  next fields =>
    refine .after fun aggregate => .after fun name => ?_
    have hraw : D (rawValue fields aggregate name) := by
      unfold rawValue
      split
      next hkey => exact h.get? hv hkey
      · split <;> exact h.text _
    refine (h.readValue hraw).bind fun e he => .after fun percentile => .pure ?_
    split
    · exact h.numericDeep he
    · exact he
  · exact .error _

theorem selectColumns (hv : D value) :
    Ensures (fun cs => ∀ c ∈ cs, T c.value) (listOfJson p value) := by
  refine (Ensures.mapM fun v hmem => h.selectColumn (h.asList hv v hmem)).bind fun columns h => ?_
  split
  · exact .throw _
  · exact .pure h

theorem namedValue (what : String) (hv : D value) :
    Ensures (fun v => S v.2.1) (namedValue p what value) := by
  unfold Snowbank.namedValue
  split
  · exact (h.shallow _ hv).map fun _ h => h
  · dsimp only
    split
    · exact .throw _
    · refine (h.shallow _ ?_).bind fun _ h => .pure h
      cases hkey : Ordered.get? "value" _ with
      | none => exact h.text _
      | some v => exact h.get? hv hkey
  · exact .error _

theorem groupBy (hv : D value) : Ensures (fun g => S g.value) (GroupBy.ofJson p value) :=
  (h.namedValue _ hv).map fun _ h => h

theorem edge (hv : D value) : Ensures (fun e => S e.value) (Edge.ofJson p value) := by
  refine (h.namedValue _ hv).bind fun v h => ?_
  dsimp only
  split
  · exact .after fun domain => .pure h
  · exact .after fun domain => .pure h

section

variable {outputs : List (String × Expr)} (ho : ∀ o ∈ outputs, T o.2)

include ho

theorem key (direction : Int) (hv : D value) :
    Ensures (fun k => T k.value ∧ (k.column = none → S k.value))
      (SortKey.key p outputs value direction) := by
  unfold SortKey.key
  dsimp only
  split
  next name e hnamed =>
    obtain ⟨text, -, hfound⟩ := Option.bind_eq_some_iff.1 hnamed
    refine .ok ⟨ho (name, e) (mem_of_find?_eq_some hfound), fun hnone => ?_⟩
    cases hnone
  · exact (h.shallow _ hv).map fun _ he => ⟨h.weaken he, fun _ => he⟩

theorem sortKey (hv : D value) : Ensures (fun k => T k.value ∧ (k.column = none → S k.value))
      (SortKey.ofJson p outputs value) := by
  unfold SortKey.ofJson
  split
  · exact h.key ho _ hv
  · split
    next hkey => exact .after fun direction => h.key ho _ (h.get? hv hkey)
    · exact .after fun direction => h.key ho _ (h.text _)
    · exact .error _
  · exact .error _

theorem sortKeys (hv : D value) :
    Ensures (fun ks => ∀ k ∈ ks, T k.value ∧ (k.column = none → S k.value))
      (SortKey.listOfJson p outputs value) :=
  .mapM fun v hmem => h.sortKey ho (h.asList hv v hmem)

end

theorem windowKeys (hv : D value) :
    Ensures (fun ks => ∀ k ∈ ks, S k.value) (SortKey.listOfJson p [] value) := by
  refine .mapM fun v hmem => ?_
  have hkey : ∀ {value : Json} (direction : Int), D value →
      Ensures (fun k => S k.value) (SortKey.key p [] value direction) := by
    intro value direction hv
    unfold SortKey.key
    cases value.str? <;> exact (h.shallow _ hv).map fun _ h => h
  have hv := h.asList hv v hmem
  unfold SortKey.ofJson
  split
  · exact hkey _ hv
  · split
    next hfound => exact .after fun direction => hkey _ (h.get? hv hfound)
    · exact .after fun direction => hkey _ (h.text _)
    · exact .error _
  · exact .error _

theorem windowValue (hv : D (.obj fields)) :
    Ensures (fun v => ∀ e ∈ v, S e) (Window.readValue p fields) := by
  unfold Window.readValue
  split
  · exact .ok (by simp)
  next hkey => exact (h.shallow _ (h.get? hv hkey)).map fun _ h => by simpa using h
  · exact .error _

theorem window (hv : D value) : Ensures (fun w => ∀ e ∈ w.exprs, S e) (Window.ofJson p value) := by
  have hedges : ∀ v : Json, D v → Ensures (fun es => ∀ e ∈ es, S e)
      (v.asList.mapM (p.expr .shallow)) :=
    fun v hv => .mapM fun w hmem => h.shallow _ (h.asList hv w hmem)
  unfold Window.ofJson
  split
  · split
    · exact .error _
    next fields _ name _ =>
      refine (h.windowValue hv).bind fun value hvalue => ?_
      have hwindow : ∀ (aggregate : Aggregate) {edges : List Expr} {sort : List SortKey},
          (∀ e ∈ edges, S e) → (∀ k ∈ sort, S k.value) →
          Ensures (fun w : Window => ∀ e ∈ w.exprs, S e) (do
            let range ← Window.readRange fields
            return ⟨name, if aggregate.isNumeric then value.map Expr.numericOnly else value,
              aggregate, edges, sort, range⟩) := by
        intro aggregate edges sort hedges hsort
        refine .after fun range => .pure ?_
        rw [Window.exprs, forall_mem_append, forall_mem_append, forall_mem_map]
        refine ⟨⟨fun e he => ?_, hedges⟩, hsort⟩
        split at he <;> rw [Option.mem_toList] at he
        · obtain ⟨v, hv, rfl⟩ := Option.map_eq_some_iff.1 he
          exact h.numeric (hvalue v hv)
        · exact hvalue e he
      dsimp only
      -- the edges and the order may each be left out, with an empty list in their place
      split <;> refine .after fun aggregate => ?_
      all_goals
        split
        next hkey =>
          refine (hedges _ (h.get? hv hkey)).bind fun edges hedges => ?_
          cases hsort : Ordered.get? "sort" fields with
          | some v =>
            exact (h.windowKeys (h.get? hv hsort)).bind fun sort hsort =>
              hwindow aggregate hedges hsort
          | none => exact hwindow aggregate hedges (forall_mem_nil _)
        · cases hsort : Ordered.get? "sort" fields with
          | some v =>
            exact (h.windowKeys (h.get? hv hsort)).bind fun sort hsort =>
              hwindow aggregate (forall_mem_nil _) hsort
          | none => exact hwindow aggregate (forall_mem_nil _) (forall_mem_nil _)
  · exact .error _

theorem list {α : Type} {P : α → Prop} (key : String) {read : Json → Except QueryError α}
    (hv : D (.obj fields)) (hread : ∀ v, D v → Ensures P (read v)) :
    Ensures (fun xs => ∀ x ∈ xs, P x) (Query.readList fields key read) := by
  unfold Query.readList
  split
  next hkey => exact .mapM fun v hmem => hread v (h.asList (h.get? hv hkey) v hmem)
  · exact .ok (forall_mem_nil _)

theorem select (hv : D (.obj fields)) (grouped : Bool) :
    Ensures (fun v => ∀ c ∈ v.1, T c.value) (Query.readSelect p fields grouped) := by
  unfold Query.readSelect
  split
  next hkey => exact (h.selectColumns (h.get? hv hkey)).map fun _ h => h
  · refine .ok (forall_mem_singleton.2 ?_)
    split <;> exact h.whole

theorem outputs {select : List SelectColumn} {groupby : List GroupBy} {edges : List Edge}
    (hselect : ∀ c ∈ select, T c.value) (hgroupby : ∀ g ∈ groupby, S g.value)
    (hedges : ∀ e ∈ edges, S e.value) : ∀ o ∈ Query.outputs select groupby edges, T o.2 := by
  simp only [Query.outputs, forall_mem_append, forall_mem_map]
  exact ⟨⟨fun c hc => hselect c (mem_of_mem_filter hc),
    fun g hg => h.weaken (hgroupby g hg)⟩, fun e he => h.weaken (hedges e he)⟩

end Perspective.Reads

theorem Query.holds_ofJson {now : Float} {schema : Schema} {D : Json → Prop}
    {S T : Path → Expr → Prop}
    (h : ∀ path, Perspective.Reads ⟨schema, path, now⟩ D (S path) (T path))
    {jx : Json} (hv : D jx) :
    Ensures (fun q => q.Holds (S q.queryPath) (T q.queryPath)) (ofJson now schema jx) := by
  unfold ofJson
  split
  next fields =>
    dsimp only
    split
    · exact .throw _
    refine .after fun source => ?_
    have h := h source.2.2
    split
    · exact .throw _
    refine (h.list _ hv fun _ => h.edge).bind fun edges hedges => ?_
    refine (h.list _ hv fun _ => h.groupBy).bind fun groupby hgroupby => ?_
    refine (h.select hv _).bind fun select hselect => ?_
    -- what follows the filter and the sort keys, whichever way they are read
    have hquery : ∀ {filter : Expr} {sort : List SortKey}, T source.2.2 filter →
        (∀ k ∈ sort, T source.2.2 k.value ∧ (k.column = none → S source.2.2 k.value)) →
        Ensures (fun q => q.Holds (S q.queryPath) (T q.queryPath)) (do
          let window ← readList fields "window" (Window.ofJson ⟨schema, source.2.2, now⟩)
          let limit ← readLimit fields
          let format ← readFormat fields (!edges.isEmpty)
          if format == .cube && !groupby.isEmpty then throw .cubeOfGroups
          return Query.mk source.1 source.2.1 source.2.2 select.1 select.2 filter edges groupby sort
            window limit format (fingerprintOf (.obj fields))) := by
      intro filter sort hfilter hsort
      refine (h.list _ hv fun _ => h.window).bind fun window hwindow => ?_
      refine .after fun limit => .after fun format => ?_
      split
      · exact .throw _
      exact .pure ⟨hfilter, hselect, hedges, hgroupby, hsort, hwindow⟩
    have hkeys := fun v (hkey : get? "sort" fields = some v) =>
      h.sortKeys (h.outputs hselect hgroupby hedges) (h.get? hv hkey)
    split
    next hkey =>
      refine (h.filter _ (h.get? hv hkey)).bind fun filter hfilter => ?_
      split
      next hkey => exact (hkeys _ hkey).bind fun sort hsort => hquery hfilter hsort
      · exact hquery hfilter (forall_mem_nil _)
    · split
      next hkey => exact (hkeys _ hkey).bind fun sort hsort => hquery h.always hsort
      · exact hquery h.always (forall_mem_nil _)
  · exact .error _

end Snowbank
