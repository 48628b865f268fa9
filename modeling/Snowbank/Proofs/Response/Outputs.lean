import Mathlib.Data.List.Basic
import Snowbank.Proofs.Ensures
import Snowbank.Proofs.Response.Edits

/-!
# Outputs in Answers

In the answer to a query that groups or aggregates, a row is an object of its
outputs, each written at the path that is its name. Of outputs with one name
only one is written, and one whose name lies in the name of another is in its
way. An output whose name is apart from all others is in the object.

## Main definitions

* `at?`: The value that keys lead to.
* `Blocked`: On the way that keys lead there is something in the way.

## Theorems

* `setPath_writes_one_place`: A value is put at one place, or nowhere.
* `outputs_kept`: Outputs whose names are apart are all in the answer.
-/

namespace Snowbank

open List ResultColumn Shape
open Path (root)

namespace Json

variable {ks ls : List String} {v w x : Json}

/-- The value that keys lead to. -/
def at? : List String → Json → Option Json
  | [], v => some v
  | key :: keys, v => (v.get? key).bind (at? keys)

theorem at?_modifyAt? (h : modifyAt? (fun _ => x) ks v = some w) : at? ks w = some x := by
  induction ks generalizing v w with
  | nil => exact h.symm
  | cons k ks ih =>
    have hobj : ∀ fields, modifyAt? (fun _ => x) (k :: ks) (.obj fields) = some w →
        at? (k :: ks) w = some x := by
      intro fields hfields
      obtain ⟨u, hu, rfl⟩ := Option.map_eq_some_iff.1 hfields
      change (Ordered.get? k _).bind (at? ks) = _
      rw [Ordered.get?_insert_self]
      exact ih hu
    cases v with
    | null => exact hobj [] h
    | obj fields => exact hobj fields h
    | _ => cases h

theorem at?_null (h : ks ≠ []) : at? ks .null = none := by
  cases ks with
  | nil => exact absurd rfl h
  | cons => rfl

theorem at?_of_apart {f : Json → Json} (h : Apart ks ls) (hw : modifyAt? f ls v = some w) :
    at? ks w = at? ks v := by
  induction ks generalizing ls v w with
  | nil => exact absurd nil_prefix h.1
  | cons k ks ih =>
    cases ls with
    | nil => exact absurd nil_prefix h.2
    | cons l ls =>
      have hobj : ∀ fields, modifyAt? f (l :: ls) (.obj fields) = some w →
          at? (k :: ks) w = at? (k :: ks) (.obj fields) := by
        intro fields hfields
        obtain ⟨u, hu, rfl⟩ := Option.map_eq_some_iff.1 hfields
        change (Ordered.get? k _).bind (at? ks) = (Ordered.get? k fields).bind (at? ks)
        by_cases hkl : k = l
        · subst hkl
          rw [Ordered.get?_insert_self, Option.bind_some, ih h.tail hu]
          cases Ordered.get? k fields with
          | some y => rfl
          | none => exact at?_null h.tail.symm.ne_nil
        · rw [Ordered.get?_insert_of_ne hkl]
      cases v with
      | null => exact hobj [] hw
      | obj fields => exact hobj fields hw
      | _ => cases hw

theorem setPath_eq {path : Path} (h : path.keys ≠ []) (v x : Json) :
    v.setPath path x = (modifyAt? (fun _ => x) path.keys v).getD v := by
  unfold setPath
  split
  · exact absurd ‹_› h
  · rfl

/-- On the way that keys lead, before its end, there is something that cannot have fields. -/
def Blocked (keys : List String) (v : Json) : Prop := ∃ front w, front <+: keys ∧ front ≠ keys ∧
  at? front v = some w ∧ w.isNull = false ∧ w.isObj = false

theorem not_blocked_null : ¬ Blocked ks .null := by
  rintro ⟨front, w, -, -, hat, hnull, -⟩
  by_cases hfront : front = []
  · rw [hfront] at hat
    cases hat
    cases hnull
  · rw [at?_null hfront] at hat
    cases hat

theorem blocked_obj (k : String) (ks : List String) (fields : Fields) :
    Blocked (k :: ks) (.obj fields) ↔ Blocked ks (field k fields) := by
  constructor
  · rintro ⟨front, w, hfront, hne, hat, hnull, hobj⟩
    cases front with
    | nil =>
      cases hat
      cases hobj
    | cons l front =>
      obtain ⟨rfl, hrest⟩ := cons_prefix_cons.1 hfront
      obtain ⟨y, hy, hat⟩ := Option.bind_eq_some_iff.1 hat
      change Ordered.get? l fields = some y at hy
      rw [field, hy, Option.getD_some]
      exact ⟨front, w, hrest, fun heq => hne (heq ▸ rfl), hat, hnull, hobj⟩
  · rintro ⟨front, w, hfront, hne, hat, hnull, hobj⟩
    rw [field] at hat
    cases hy : Ordered.get? k fields with
    | none =>
      rw [hy] at hat
      exact absurd ⟨front, w, hfront, hne, hat, hnull, hobj⟩ not_blocked_null
    | some y =>
      rw [hy] at hat
      refine ⟨k :: front, w, cons_prefix_cons.2 ⟨rfl, hfront⟩, fun heq => hne (cons.inj heq).2, ?_,
        hnull, hobj⟩
      change (Ordered.get? k fields).bind (at? front) = some w
      rw [hy]
      exact hat

theorem modifyAt?_eq_none_iff (f : Json → Json) : modifyAt? f ks v = none ↔ Blocked ks v := by
  induction ks generalizing v with
  | nil =>
    refine iff_of_false (Option.some_ne_none _) ?_
    rintro ⟨_, _, hfront, hne, -⟩
    exact hne (prefix_nil.1 hfront)
  | cons k ks ih =>
    have hobj (fields) : modifyAt? f (k :: ks) (.obj fields) = none ↔
        Blocked (k :: ks) (.obj fields) := by
      rw [modifyAt?_obj, Option.map_eq_none_iff, ih, blocked_obj]
    cases v with
    | null =>
      have hsome := Option.isSome_iff_ne_none.1 (isSome_modifyAt?_null f (k :: ks))
      exact iff_of_false hsome not_blocked_null
    | obj fields => exact hobj fields
    | _ => exact ⟨fun _ => ⟨[], _, nil_prefix, (cons_ne_nil _ _).symm, rfl, rfl, rfl⟩, fun _ => rfl⟩

/-- A value is put at one place, or nothing changes: something is in the way exactly when nothing is
    written, and what is at places apart from the one written stays. -/
theorem setPath_writes_one_place {path : Path} (hkeys : path.keys ≠ []) (target value : Json) :
    Blocked path.keys target ∧ target.setPath path value = target ∨
      ¬ Blocked path.keys target ∧ at? path.keys (target.setPath path value) = some value ∧
        ∀ ls, Apart ls path.keys → at? ls (target.setPath path value) = at? ls target := by
  rw [← modifyAt?_eq_none_iff fun _ => value, setPath_eq hkeys]
  cases hw : modifyAt? (fun _ => value) path.keys target with
  | none => exact .inl ⟨rfl, rfl⟩
  | some w => exact .inr ⟨Option.some_ne_none w, at?_modifyAt? hw, fun _ h => at?_of_apart h hw⟩

theorem setPath_writes_one_place_nested :
    (¬ Blocked (Path.keys "a.b") (.obj [("a", .null), ("c", .bool true)]) ∧
      at? (Path.keys "a.b") (setPath (.obj [("a", .null), ("c", .bool true)]) "a.b" (.str "x")) =
        some (.str "x")) ∧ Blocked (Path.keys "c.b") (.obj [("a", .null), ("c", .bool true)]) := by
  refine ⟨?_, ?_⟩
  · rcases setPath_writes_one_place (show Path.keys "a.b" ≠ [] by decide)
        (.obj [("a", .null), ("c", .bool true)]) (.str "x") with h | h
    · exact absurd h.1 (by rw [← modifyAt?_eq_none_iff id]; exact Option.some_ne_none _)
    · exact ⟨h.1, h.2.1⟩
  · exact ⟨["c"], .bool true, by decide, by decide, rfl, rfl, rfl⟩

end Json

namespace Plan

open Json

theorem at?_rowObject {columns : List PushColumn} {q : Query} {row : List Json} {c : PushColumn}
    (hc : c ∈ columns) (hne : Path.keys c.name ≠ []) (hvalue : (c.value q row).isNull = false)
    (hapart : ∀ d ∈ columns, d = c ∨ Apart (Path.keys c.name) (Path.keys d.name)) :
    at? (Path.keys c.name) (rowObject columns q row) = some (c.value q row) := by
  obtain ⟨ks, hks⟩ : ∃ ks, ks = Path.keys c.name := ⟨_, rfl⟩
  rw [← hks] at hne hapart ⊢
  -- nothing is in the way of the output, which is still to come or there
  have hfold : ∀ v, (modifyAt? (fun _ => c.value q row) ks v).isSome →
      c ∈ columns ∨ at? ks v = some (c.value q row) →
      at? ks (columns.foldl (fun object d => if (d.value q row).isNull then object else
        object.setPath d.name (d.value q row)) v) = some (c.value q row) := by
    clear hc
    induction columns with
    | nil => exact fun v _ h => h.resolve_left not_mem_nil
    | cons d rest ih =>
      intro v hfree h
      rw [forall_mem_cons] at hapart
      rw [foldl_cons]
      rcases hapart.1 with rfl | hd
      · obtain ⟨w, hw⟩ := Option.isSome_iff_exists.1 hfree
        rw [if_neg (ne_true_of_eq_false hvalue), setPath_eq (hks ▸ hne), ← hks, hw,
          Option.getD_some]
        refine ih hapart.2 w ?_ (.inr (at?_modifyAt? hw))
        have hsame := modifyAt?_same (fun _ => d.value q row) (fun _ => d.value q row) ks v
        rw [hw, Option.bind_some] at hsame
        exact hsame ▸ hfree
      · have hstay : c ∈ rest ∨ at? ks v = some (c.value q row) :=
          h.imp_left fun hmem => (mem_cons.1 hmem).resolve_left fun heq =>
            hd.1 (hks ▸ heq ▸ prefix_rfl)
        split
        · exact ih hapart.2 v hfree hstay
        · rw [setPath_eq hd.ne_nil]
          cases hw : modifyAt? (fun _ => d.value q row) (Path.keys d.name) v with
          | none => exact ih hapart.2 v hfree hstay
          | some w =>
            refine ih hapart.2 w ?_ (hstay.imp_right (at?_of_apart hd hw).trans)
            rw [isSome_modifyAt?_of_apart hd hw, hfree]
  refine hfold (.obj []) ?_ (.inl hc)
  cases ks with
  | nil => exact absurd rfl hne
  | cons k ks => exact isSome_modifyAt?_null _ (k :: ks)

end Plan

namespace ResultColumn

def place (c : ResultColumn) : String × Path × Bool := (c.output, c.child, c.isEdge)

/-- The place of the column at a position, among some outputs. -/
def mappingIn (outputs : List String) (x : ResultColumn × Nat) : ColumnMapping :=
  ⟨x.1.output, outputs.idxOf x.1.output, x.1.child, x.2, x.1.isEdge, outputs.length, x.1.type⟩

variable {front own back : List ResultColumn} {c : ResultColumn}
  (hown : ∀ d ∈ c :: own, d.output = c.output) (hother : ∀ d ∈ front ++ back, d.output ≠ c.output)

include hown hother

/-- Outputs are told apart by their positions, so those of one name have this one. -/
theorem filter_mappingIn {outputs : List String}
    (hmem : ∀ d ∈ front ++ (c :: own ++ back), d.output ∈ outputs) :
    ((front ++ (c :: own ++ back)).zipIdx.map (mappingIn outputs)).filter
        (·.pushColumn == outputs.idxOf c.output) =
      ((c :: own).zipIdx front.length).map (mappingIn outputs) := by
  have hnone : ∀ (part : List ResultColumn) (n : Nat), (∀ d ∈ part, d ∈ front ++ back) →
      ((part.zipIdx n).map (mappingIn outputs)).filter
        (·.pushColumn == outputs.idxOf c.output) = [] := by
    intro part n hpart
    refine filter_eq_nil_iff.2 (forall_mem_map.2 fun x hx heq => ?_)
    have hd := hpart x.1 (fst_mem_of_mem_zipIdx hx)
    refine hother x.1 hd ((idxOf_inj (hmem x.1 ?_)).1 (beq_iff_eq.1 heq))
    exact (mem_append.1 hd).elim (mem_append_left _) fun h =>
      mem_append_right _ (mem_append_right _ h)
  have hall : (((c :: own).zipIdx front.length).map (mappingIn outputs)).filter
      (·.pushColumn == outputs.idxOf c.output) =
        ((c :: own).zipIdx front.length).map (mappingIn outputs) := by
    refine filter_eq_self.2 (forall_mem_map.2 fun x hx => ?_)
    rw [mappingIn, hown x.1 (fst_mem_of_mem_zipIdx hx)]
    exact beq_self_eq_true _
  rw [zipIdx_append, zipIdx_append, map_append, map_append, filter_append, filter_append,
    hnone front 0 fun _ => mem_append_left _, hnone back _ fun _ => mem_append_right _, nil_append,
    append_nil, Nat.zero_add, hall]

theorem mem_ofMapping :
    ∃ p ∈ PushColumn.ofMapping (mapping (front ++ (c :: own ++ back))), p.name = c.output ∧
      p.isEdge = c.isEdge ∧ p.parts.map (fun m => (m.pushChild, m.pull)) =
        ((c :: own).zipIdx front.length).map (fun x => (x.1.child, x.2)) ∧
      ∀ d ∈ PushColumn.ofMapping (mapping (front ++ (c :: own ++ back))),
        d = p ∨ ∃ e ∈ front ++ back, d.name = e.output := by
  have hmem : ∀ d ∈ front ++ (c :: own ++ back),
      d.output ∈ ((front ++ (c :: own ++ back)).map output).eraseDups := fun d hd =>
    mem_eraseDups.2 (mem_map_of_mem hd)
  have hmapping : mapping (front ++ (c :: own ++ back)) =
      (front ++ (c :: own ++ back)).zipIdx.map
        (mappingIn ((front ++ (c :: own ++ back)).map output).eraseDups) := rfl
  rw [hmapping]
  generalize ((front ++ (c :: own ++ back)).map output).eraseDups = outputs at hmem ⊢
  -- each column is for this output or for one with another name
  have hall : ∀ m ∈ (front ++ (c :: own ++ back)).zipIdx.map (mappingIn outputs),
      m.numPushColumns = outputs.length ∧ m.pushColumn = outputs.idxOf m.pushName ∧
        (m.pushName = c.output ∨ ∃ e ∈ front ++ back, m.pushName = e.output) := by
    refine forall_mem_map.2 fun x hx => ⟨rfl, rfl, ?_⟩
    rcases mem_append.1 (fst_mem_of_mem_zipIdx hx) with h | h
    · exact .inr ⟨x.1, mem_append_left _ h, rfl⟩
    · exact (mem_append.1 h).imp (hown x.1) fun h => ⟨x.1, mem_append_right _ h, rfl⟩
  have hfilter := filter_mappingIn hown hother hmem
  have hc := hmem c (mem_append_right _ mem_cons_self)
  generalize (front ++ (c :: own ++ back)).zipIdx.map (mappingIn outputs) = all at hfilter hall ⊢
  have hcount : (all.head?.map ColumnMapping.numPushColumns).getD 0 = outputs.length := by
    cases all with
    | nil => cases hfilter
    | cons m rest => exact (hall m mem_cons_self).1
  unfold PushColumn.ofMapping
  rw [hcount]
  refine ⟨⟨c.output, c.isEdge, ((c :: own).zipIdx front.length).map (mappingIn outputs)⟩,
    mem_filterMap.2 ⟨outputs.idxOf c.output, ?_, ?_⟩, rfl, rfl, map_map .., fun d hd => ?_⟩
  · exact mem_range.2 (idxOf_lt_length_iff.2 hc)
  · rw [hfilter]
    rfl
  · -- an output is made of the columns at one position
    obtain ⟨i, _, hi⟩ := mem_filterMap.1 hd
    split at hi
    · cases hi
    next first rest hfirst =>
      cases hi
      obtain ⟨hmem, hcolumn⟩ := mem_filter.1 (hfirst ▸ mem_cons_self)
      rcases hall first hmem with ⟨_, hposition, hname | hname⟩
      · rw [← beq_iff_eq.1 hcolumn, hposition, hname, hfilter] at hfirst
        cases hfirst
        exact .inl rfl
      · exact .inr hname

end ResultColumn

/-- An output of one column, for itself, has the value of its cell. -/
theorem PushColumn.value_of_parts {p : PushColumn} {pull : Nat} (hedge : p.isEdge = false)
    (h : p.parts.map (fun m => (m.pushChild, m.pull)) = [(root, pull)]) (q : Query)
    (row : List Json) : p.value q row = (DocumentLayout.cell row pull).decode := by
  obtain ⟨m, hparts, hm⟩ := map_eq_singleton_iff.1 h
  have hchild : m.pushChild = root := congrArg Prod.fst hm
  have hpull : m.pull = pull := congrArg Prod.snd hm
  rw [value, hedge, if_neg Bool.false_ne_true, hparts]
  dsimp only
  rw [hchild, hpull]
  rfl

namespace Query

open Json

/-- The names of the outputs that are no edges. -/
def plainOutputs (q : Query) : List String :=
  (if q.edges.isEmpty then q.groupby.map GroupBy.name else []) ++ q.select.map SelectColumn.name

def places (q : Query) : List (String × Path × Bool) :=
  q.edges.flatMap (fun e => [(e.name, "index", true), (e.name, root, true)]) ++
    q.plainOutputs.map fun name => (name, root, false)

def Mapped (q : Query) (shape : Shape) (plan : Plan) : Prop :=
  plan.shape = shape ∧ ∃ columns, plan.mapping = mapping columns ∧
    columns.map place = q.places

variable {q : Query} (scope : Scope)

theorem mapped_grouped (shape : Shape) (hedges : q.edges = []) :
    Ensures (q.Mapped shape) (Plan.grouped q scope shape) := by
  have hselect : ∀ (select : List (SelectColumn × Nat)), Ensures (fun cs =>
      cs.map place = select.map fun c => (c.1.name, root, false))
      (select.mapM fun c => Plan.groupedSelect q scope c.1 c.2) := by
    intro select
    induction select with
    | nil => exact .pure rfl
    | cons c rest ih =>
      rw [mapM_cons]
      refine .bind (P := fun r => r.place = (c.1.name, root, false)) ?_ fun r hr =>
        ih.bind fun rs hrs => .pure (congrArg₂ cons hr hrs)
      unfold Plan.groupedSelect
      split
      · split
        · exact .pure rfl
        · exact .throw _
      · exact .after fun _ => .pure rfl
  refine .after fun values => .after fun keys => (hselect _).bind fun selects hselects =>
    .after fun filter => ?_
  have hcolumns : (q.groupby.zipIdx.map (fun g => plain (.name (Plan.groupColumn g.2))
      g.1.name g.1.value.dataType) ++ selects).map place = q.places := by
    rw [map_append, hselects, map_map, places, plainOutputs, hedges, isEmpty_nil, if_pos rfl,
      map_append, map_map, map_map, flatMap_nil, nil_append]
    exact congrArg₂ (· ++ ·) (Ordered.map_fst_zipIdx (fun g : GroupBy => (g.name, root, false)) _)
      (Ordered.map_fst_zipIdx (fun c : SelectColumn => (c.name, root, false)) _)
  split
  · exact .after fun sql => .pure ⟨rfl, _, rfl, hcolumns⟩
  · exact .pure ⟨rfl, _, rfl, hcolumns⟩

theorem mapped_edges (hedges : q.edges.isEmpty = false) :
    Ensures (q.Mapped .edges) (Plan.edges q scope) := by
  refine .after fun values => .after fun keys => .after fun filter => .after fun aggregates =>
    .after fun order => .pure ⟨rfl, _, rfl, ?_⟩
  rw [map_append, map_flatMap, map_map, places, plainOutputs, hedges, if_neg Bool.false_ne_true,
    nil_append, map_map]
  refine congrArg₂ (· ++ ·) ?_
    (Ordered.map_fst_zipIdx (fun c : SelectColumn => (c.name, root, false)) _)
  exact (flatMap_map Prod.fst (fun e : Edge => [(e.name, "index", true), (e.name, root, true)])
    _).symm.trans (congrArg _ (zipIdx_map_fst 0 q.edges))

theorem mapped_plan {s : Snowflake}
    (hshape : ofQuery q ≠ .setop ∧ ofQuery q ≠ .documents) :
    Ensures (q.Mapped (ofQuery q)) (q.plan s) := by
  have hedges : ofQuery q = .edges ↔ q.edges.isEmpty = false := by
    unfold ofQuery
    grind
  unfold plan
  split
  · exact .error _
  split
  · exact .error _
  dsimp only
  split
  · exact .error _
  cases hcase : ofQuery q with
  | setop => exact absurd hcase hshape.1
  | documents => exact absurd hcase hshape.2
  | edges => exact mapped_edges _ (hedges.1 hcase)
  | aggregate | grouped =>
    refine mapped_grouped _ _ (List.isEmpty_iff.1 (Bool.of_not_eq_false fun h => ?_))
    cases hcase.symm.trans (hedges.2 h)

/-- In the answer to a query that groups or aggregates, each row has all its
    outputs that are no edges and whose names are apart from all others. -/
theorem outputs_kept {s : Snowflake} {plan : Plan} (hplan : q.plan s = .ok plan)
    (hshape : Shape.ofQuery q ≠ .setop ∧ Shape.ofQuery q ≠ .documents) (hformat : q.format = .list)
    {rows : List (List Json)} (hrows : ∀ row ∈ rows, row.length = plan.mapping.length) :
    ∃ object : List Json → Json,
      plan.assemble q rows = .ok (.mkObj [Plan.metadata q, ("data",
        if Shape.ofQuery q = .aggregate then (rows.map object).head?.getD (.obj [])
        else .arr (rows.map object))]) ∧
      ∀ before name after, q.plainOutputs = before ++ name :: after → Path.keys name ≠ [] →
        (∀ other ∈ q.edges.map Edge.name ++ (before ++ after),
          Apart (Path.keys name) (Path.keys other)) →
        ∀ row ∈ rows, ∀ value,
          (DocumentLayout.cell row (2 * q.edges.length + before.length)).decode = value →
          value.isNull = false → at? (Path.keys name) (object row) = some value := by
  rcases mapped_plan hshape plan hplan with ⟨hkind, columns, hmapping, hplaces⟩
  refine ⟨Plan.rowObject (PushColumn.ofMapping plan.mapping) q, ?_, ?_⟩
  · have hwidth : rows.find? (fun row => row.length != plan.mapping.length) = none :=
      find?_eq_none.mpr fun row hrow => by simp [hrows row hrow]
    unfold Plan.assemble
    dsimp only
    rw [hwidth]
    dsimp only
    rw [hkind, if_neg (by simp [hshape.2]), Plan.valueAnswer, hformat]
    simp [hkind]
  · intro before name after houtputs hne hapart row _ value hvalue hsome
    rw [places, houtputs, map_append, map_cons, ← append_assoc] at hplaces
    -- the column of the output, with those before and after it
    rcases map_eq_append_iff.mp hplaces with ⟨front, more, rfl, hfront, hmore⟩
    rcases map_eq_cons_iff.mp hmore with ⟨c, back, rfl, hc, hback⟩
    have hnames : ∀ d ∈ front ++ back, d.output ∈ q.edges.map Edge.name ++ (before ++ after) := by
      intro d hd
      have hplace := mem_map_of_mem (f := ResultColumn.place) hd
      rw [map_append, hfront, hback] at hplace
      simp only [ResultColumn.place, mem_append, mem_flatMap, mem_map, mem_cons, not_mem_nil,
        or_false, Prod.mk.injEq] at hplace ⊢
      rcases hplace with (⟨e, he, heq | heq⟩ | ⟨_, hother, rfl, _⟩) | ⟨_, hother, rfl, _⟩
      · exact .inl ⟨e, he, heq.1.symm⟩
      · exact .inl ⟨e, he, heq.1.symm⟩
      · exact .inr (.inl hother)
      · exact .inr (.inr hother)
    have hlength : front.length = 2 * q.edges.length + before.length := by
      have hlength := congrArg length hfront
      simp at hlength
      omega
    have hname : c.output = name := congrArg Prod.fst hc
    rcases ResultColumn.mem_ofMapping (forall_mem_singleton.mpr rfl)
        (fun d hd heq => (hapart _ (hnames d hd)).1 (heq.trans hname ▸ prefix_rfl)) with
      ⟨p, hp, hpname, hedge, hparts, hothers⟩
    rw [zipIdx_cons, zipIdx_nil, map_cons, map_nil,
      show c.child = _ from congrArg (·.2.1) hc] at hparts
    -- the output is made of its column alone
    have hpvalue :=
      (PushColumn.value_of_parts (hedge.trans (congrArg (·.2.2) hc)) hparts q row).trans
      (hlength ▸ hvalue)
    rw [← hpname.trans hname] at hne hapart ⊢
    rw [hmapping, ← hpvalue]
    refine Plan.at?_rowObject hp hne (hpvalue ▸ hsome) fun d hd => (hothers d hd).imp_right ?_
    rintro ⟨e, he, heq⟩
    exact heq ▸ hapart _ (hnames e he)

/-- The documents are counted, in two columns. -/
def tallied : Query :=
  ⟨"t", "t", .root, [⟨"n.all", .var .root .object, .count, none, none⟩,
    ⟨"n.both", .var .root .object, .count, none, none⟩], false, .yes, [], [], [], [], 10, .list, ""⟩

theorem outputs_kept_tallied : ∃ plan object, tallied.plan (.empty "t") = .ok plan ∧
    plan.assemble tallied [[.nat 3, .nat 4]] =
      .ok (.mkObj [Plan.metadata tallied, ("data", object)]) ∧
      at? (Path.keys "n.both") object = some (.nat 4) := by
  obtain ⟨plan, hplan, hlength⟩ : ∃ plan, tallied.plan (.empty "t") = .ok plan ∧
      plan.mapping.length = 2 := ⟨_, rfl, rfl⟩
  have hrows : ∀ row ∈ [[Json.nat 3, .nat 4]], row.length = plan.mapping.length :=
    forall_mem_singleton.mpr hlength.symm
  rcases outputs_kept hplan (by decide) rfl hrows with ⟨object, hassemble, hkept⟩
  refine ⟨plan, object [.nat 3, .nat 4], hplan, hassemble, ?_⟩
  refine hkept ["n.all"] "n.both" [] rfl (by decide +kernel) (forall_mem_singleton.mpr ?_) _
    mem_cons_self _ rfl rfl
  unfold Apart
  decide +kernel

end Query

end Snowbank
