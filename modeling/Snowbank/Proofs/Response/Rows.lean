import Snowbank.Proofs.Json.Leaf
import Snowbank.Proofs.Response.Listing
import Snowbank.Proofs.Response.Restored
import Snowbank.Proofs.Snowflake.Migration

/-!
# The Value of a Row

A row is read by columns, and its arrays by table. The columns come in the
order of the catalog, and there are many that the row has nothing in; but each
of the others says by its name where the value goes, and so do the counts of
arrays for the rows that hang on it. As long as none of these places lies in
another, the value of the row is made up of them in any order.

## Main definitions

* `Fills`: A row has something under a label of its table.
* `Reads`: What a row has is at places apart, with nothing beneath values.
* `value`: The value of a row with the rows that hang on it.

## Theorems

* `value_eq`: The value of a row is made up of what it has.
* `StoredAs.documents_eq`: The answer has the values of the trees.
-/

namespace Snowbank

open List Column

namespace Json

theorem orEmpty_of_isNull {v : Json} (h : v.isNull = false) : orEmpty v = v :=
  if_neg (by rw [h]; exact Bool.false_ne_true)

theorem isNull_orEmpty (v : Json) : (orEmpty v).isNull = false := by
  unfold orEmpty
  split
  · rfl
  next h => exact Bool.not_eq_true _ ▸ h

/-- Changes within an object do not make a difference between nothing and an
    object without fields. -/
theorem run_orEmpty {edits : List Edit} (hkeys : ∀ e ∈ edits, e.keys ≠ []) {v w : Json}
    (h : run edits v = some w) : run edits (orEmpty v) = some (orEmpty w) := by
  cases edits with
  | nil => exact congrArg (fun u => some (orEmpty u)) (Option.some.inj h)
  | cons e rest =>
    obtain ⟨u, hu, hrest⟩ := Option.bind_eq_some_iff.1 h
    have hw : w.isNull = false := isNull_run (fun d hd => hkeys d (.tail _ hd))
        (isNull_modifyAt? (hkeys e mem_cons_self) hu) hrest
    rw [orEmpty_of_isNull hw]
    by_cases hv : v.isNull
    · rw [eq_null_of_isNull hv] at h ⊢
      rw [← h, run_null (cons_ne_nil _ _) hkeys]
      rfl
    · rw [orEmpty_of_isNull (Bool.not_eq_true _ ▸ hv), h]

/-- Items that are put into arrays in turn are put there at once. -/
theorem run_flatMap_pushed {α : Type} (keys : α → List String) (items : α → List Json)
    (places : List α) (v : Json) :
    run (places.flatMap fun m => (items m).map fun item => ⟨keys m, pushed item⟩) v =
      run ((places.filter fun m => !(items m).isEmpty).map fun m =>
      ⟨keys m, pushAll (items m)⟩) v := by
  induction places generalizing v with
  | nil => rfl
  | cons m rest ih =>
    rw [flatMap_cons, filter_cons]
    cases hitems : items m with
    | nil => exact ih v
    | cons item more =>
      rw [run_append, run_pushed _ (cons_ne_nil _ _), funext ih]
      exact congrArg (fun all => (Edit.apply ⟨keys m, pushAll all⟩ v).bind _) hitems.symm

end Json

namespace Snowflake

open Json Plan

/-- What a row has under a label. -/
def labelValue (s : Snowflake) (r : Cells) (label : Path × DataType) : Json :=
  typedValue label.2 (r (s.columnName label.1 label.2)) (r (s.columnName label.1 label.2)).decode

/-- A row of an array has something under a label of its table. -/
def Fills (s : Snowflake) (n : Path) (r : Cells) (label : Path × DataType) : Prop :=
  label ∈ s.labels ∧ label.2 ≠ .nested ∧ s.homeOf label.1 label.2 = n ∧
    (r (s.columnName label.1 label.2)).isNull = false

instance (s : Snowflake) (n : Path) (r : Cells) (label : Path × DataType) :
    Decidable (s.Fills n r label) := inferInstanceAs (Decidable (_ ∧ _ ∧ _ ∧ _))

/-- The labels that a row has something under. -/
def content (s : Snowflake) (n : Path) (r : Cells) : List (Path × DataType) :=
  s.labels.filter fun label => decide (s.Fills n r label)

/-- What a row has can be read back: it is at places of which none lies in
    another, and values have nothing beneath them. -/
structure Reads (s : Snowflake) (n : Path) (r : Cells) : Prop where
  clean : ∀ label, s.Fills n r label → label.1.Clean
  apart : ∀ label other, s.Fills n r label → s.Fills n r other → label ≠ other →
    Apart label.1.keys other.1.keys
  tip : ∀ label, s.Fills n r label → label.2 ≠ .presence → (s.labelValue r label).IsTip

/-- The columns that a row has something in. -/
def filledColumns (s : Snowflake) (n : Path) (r : Cells) : List Column :=
  (valueColumnsOf s n).filter fun c => !(r c.physical).isNull

variable {s : Snowflake} {n : Path} {r : Cells}

theorem mem_content {label : Path × DataType} : label ∈ s.content n r ↔ s.Fills n r label := by
  rw [content, mem_filter, decide_eq_true_iff]
  exact and_iff_right_of_imp fun h => h.1

section

variable (hs : s.Laid)

include hs

variable {label : Path × DataType} {c : Column}

theorem Fills.isUnder (h : s.Fills n r label) : label.1.isUnder n := by
  obtain ⟨hlabel, _, rfl, _⟩ := h
  exact (isHome_homeOf hs.toArraysOrdered (hs.of_label hlabel).2.2).under

theorem mem_valueColumnsOf : c ∈ valueColumnsOf s n ↔
    c ∈ s.columns ∧ c.type ≠ .nested ∧ c.type ≠ .presence ∧ s.homeOf c.name c.type = n := by
  rw [valueColumnsOf, mem_filter, Bool.and_eq_true, isValue, isPhysical,
    Bool.and_eq_true, bne_iff_ne, bne_iff_ne, beq_iff_eq, and_assoc]
  refine and_congr_right fun hc => ?_
  rw [hs.home_eq hc]

theorem physical_eq (hc : c ∈ s.columns) (htype : c.type ≠ .nested) :
    c.physical = s.columnName c.name c.type := by
  rw [(hs.stands c hc).physical, physicalName_eq, if_neg htype]
  rfl

theorem mem_filledColumns :
    label ∈ (s.filledColumns n r).map Column.label ↔ s.Fills n r label ∧ label.2 ≠ .presence := by
  rw [mem_map]
  constructor
  · rintro ⟨c, hc, rfl⟩
    obtain ⟨hc, hsome⟩ := mem_filter.1 hc
    obtain ⟨hmem, hnested, hpresence, hhome⟩ := (mem_valueColumnsOf hs).1 hc
    rw [physical_eq hs hmem hnested, Bool.not_eq_true'] at hsome
    exact ⟨⟨mem_labels.2 ⟨c, hmem, rfl, rfl⟩, hnested, hhome, hsome⟩, hpresence⟩
  · rintro ⟨⟨hlabel, hnested, hhome, hsome⟩, hpresence⟩
    rcases mem_labels.1 (show (label.1, label.2) ∈ s.labels from hlabel) with ⟨c, hc, hname, htype⟩
    rw [← hname, ← htype] at hhome hsome
    rw [← htype] at hnested hpresence
    refine ⟨c, mem_filter.2 ⟨(mem_valueColumnsOf hs).2 ⟨hc, hnested, hpresence, hhome⟩, ?_⟩,
      Prod.ext hname htype⟩
    rw [physical_eq hs hc hnested, hsome]
    rfl

theorem nodup_filledColumns : ((s.filledColumns n r).map Column.label).Nodup :=
  hs.unique.sublist ((filter_sublist.trans filter_sublist).map _)

variable (h : s.Reads n r)

include h

theorem Reads.pairwise {labels : List (Path × DataType)} (hnodup : labels.Nodup)
    (hfill : ∀ label ∈ labels, s.Fills n r label) :
    labels.Pairwise fun a b => Apart (a.1.keys.drop n.depth) (b.1.keys.drop n.depth) := by
  refine hnodup.imp_of_mem fun {a b} ha hb hne => ?_
  exact (h.apart a b (hfill a ha) (hfill b hb) hne).drop
    (Path.isUnder_iff.1 ((hfill a ha).isUnder hs)) (Path.isUnder_iff.1 ((hfill b hb).isUnder hs))

theorem Reads.column (hc : c ∈ valueColumnsOf s n) (hsome : (r c.physical).isNull = false) :
    s.Fills n r c.label ∧ c.label.2 ≠ .presence ∧
      typedValue c.type.storage (r c.physical) (r c.physical).decode = s.labelValue r c.label ∧
      (s.labelValue r c.label).isNull = false := by
  have hfilled : c ∈ s.filledColumns n r := mem_filter.2 ⟨hc, by rw [hsome]; rfl⟩
  obtain ⟨hfills, hpresence⟩ := (mem_filledColumns hs).1 (mem_map_of_mem hfilled)
  obtain ⟨hcolumn, hnested, _, _⟩ := (mem_valueColumnsOf hs).1 hc
  refine ⟨hfills, hpresence, ?_, (h.tip _ hfills hpresence).1⟩
  rw [hs.stored c hcolumn, physical_eq hs hcolumn hnested]
  rfl

/-- A column that a row has something in is put where its name says. -/
theorem Reads.putColumn_eq (hc : c ∈ valueColumnsOf s n) (out : Json) :
    putColumn r out c = if (r c.physical).isNull then out
      else out.setPath (c.name.relativeTo n) (s.labelValue r c.label) := by
  cases hnull : (r c.physical).isNull with
  | true =>
    rw [if_pos rfl, putColumn, eq_null_of_isNull hnull]
    split
    · rfl
    · rename_i type _
      cases type <;> rfl
  | false =>
    obtain ⟨hfills, _, hvalue, hsome⟩ := h.column hs hc hnull
    obtain ⟨hcolumn, hnested, _, hhome⟩ := (mem_valueColumnsOf hs).1 hc
    have hclean : c.name.Clean := h.clean _ hfills
    have hplace : Path.untyped? c.physical = some (c.name.relativeTo n, c.type.storage) := by
      rw [physical_eq hs hcolumn hnested, columnName, hhome,
        hclean.untyped?_relativeTo (hfills.isUnder hs)]
    rw [if_neg Bool.false_ne_true, putColumn, hplace]
    dsimp only
    rw [hvalue, hsome]
    rfl

/-- The columns that a row has nothing in are passed over. -/
theorem Reads.foldl_putColumn {columns : List Column}
    (hcolumns : ∀ c ∈ columns, c ∈ valueColumnsOf s n)
    (out : Json) :
    columns.foldl (putColumn r) out = ((columns.filter fun c => !(r c.physical).isNull).map fun c =>
        (c.name.relativeTo n, s.labelValue r c.label)).foldl
        (fun out x => out.setPath x.1 x.2) out := by
  induction columns generalizing out with
  | nil => rfl
  | cons c rest ih =>
    have hrest := ih fun d hd => hcolumns d (.tail _ hd)
    rw [foldl_cons, h.putColumn_eq hs (hcolumns c mem_cons_self), hrest, filter_cons]
    cases (r c.physical).isNull <;> rfl

/-- What the columns of a row make up is what the row has under their labels. -/
theorem Reads.columnsJson_eq : columnsJson r (valueColumnsOf s n) =
      (run (((s.filledColumns n r).map Column.label).map fun label =>
        ⟨label.1.keys.drop n.depth, fun _ => s.labelValue r label⟩) .null).getD .null := by
  have hfill : ∀ label ∈ (s.filledColumns n r).map Column.label, s.Fills n r label :=
    fun label hlabel =>
    ((mem_filledColumns hs).1 hlabel).1
  have hkeys : ∀ c ∈ s.filledColumns n r, (c.name.relativeTo n).keys =
    c.label.1.keys.drop n.depth := by
    intro c hc
    have hc := hfill _ (mem_map_of_mem hc)
    exact (h.clean _ hc).keys_relativeTo (hc.isUnder hs)
  have hapart := h.pairwise hs (nodup_filledColumns hs) hfill
  have hsome : (run (((s.filledColumns n r).map label).map fun label =>
      ⟨label.1.keys.drop n.depth, fun _ => s.labelValue r label⟩) .null).isSome :=
    isSome_run (pairwise_map.2 hapart) fun e _ => isSome_modifyAt?_null e.change e.keys
  obtain ⟨w, hw⟩ := Option.isSome_iff_exists.1 hsome
  rw [columnsJson, h.foldl_putColumn hs fun _ hc => hc, hw, Option.getD_some]
  refine foldl_setPath (fun _ _ => .inr rfl) ?_ ?_
  · rw [pairwise_map] at hapart ⊢
    refine hapart.imp_of_mem fun {a b} ha hb hab => ?_
    rw [hkeys a ha, hkeys b hb]
    exact hab
  · rw [← hw, map_map, map_map]
    refine congrArg (run · _) (map_congr_left fun c hc => ?_)
    exact congrArg (Edit.mk · _) (hkeys c hc)

end

end Snowflake

namespace RowTree

theorem valueFrom_eq (layout : DocumentLayout) (trees : List RowTree) (v : Json) :
    valueFrom layout v trees =
      trees.foldl (fun v t => v.appendAt (place layout t.row) (value layout t)) v := by
  induction trees generalizing v with
  | nil => rfl
  | cons t rest ih =>
    obtain ⟨row, below⟩ := t
    rw [valueFrom, ih]
    rfl

end RowTree

namespace Node

open Plan Json Snowflake

/-- The value of a row with the rows that hang on it. Where it stands in the
    result does not matter for that. -/
def value (s : Snowflake) (x : Node) : Json := (tree s ⟨0, []⟩ x).value (layout s .root)

/-- The part of the value of a row that is under a label: a value, or what the
    rows of an array make up. -/
def change (s : Snowflake) (x : Node) (label : Path × DataType) : Edit :=
  ⟨label.1.keys.drop x.path.depth,
    if label.2 = .presence then pushAll ((x.kids label.1).map (value s))
    else fun _ => s.labelValue x.cells label⟩

section

variable {s : Snowflake} (hs : s.ArraysOrdered)

include hs

variable {n : Path} {x : Node}

theorem place_tree {y : Node} (hy : y.path ∈ s.nested) (j : Joined) :
    RowTree.place (layout s .root) (tree s j y).row =
      y.path.relativeTo (s.parentNestedPath y.path) := by
  have htable := table?_layout ((mem_arrays hs).2 (.inr hy))
  rw [row_tree, RowTree.place, index_resultRow, DocumentLayout.table?, htable, Option.map_some,
    Option.getD_some, (parent_tableAt hs hy _).2]

omit hs in
theorem ownValue_resultRow (hn : n ∈ arrays s) (j : Joined) :
    RowTree.ownValue (layout s .root) (resultRow s ((arrays s).idxOf n) j) =
      orEmpty (columnsJson j.last (valueColumnsOf s n)) := by
  rw [RowTree.ownValue_eq (tableOf_resultRow hn j), rowValue_resultRow hn]
  rfl

theorem value_tree (hn : n ∈ arrays s) (cells : Cells) {children : List Node}
    (hinside : ∀ y ∈ children, y.path ∈ s.nested ∧ s.parentNestedPath y.path = n) (j : Joined) :
    (tree s j (mk n cells children)).value (layout s .root) =
      ((arranged s children).map fun y => (y.path.relativeTo n,
        (tree s (j.down s n cells) y).value (layout s .root))).foldl
          (fun v x => v.appendAt x.1 x.2) (orEmpty (columnsJson cells (valueColumnsOf s n))) := by
  rw [tree_eq, RowTree.value, RowTree.valueFrom_eq, ownValue_resultRow hn, Joined.last_down,
    foldl_map, foldl_map]
  refine foldl_ext _ _ _ fun v y hy => ?_
  obtain ⟨hnested, hparent⟩ :=
    hinside y ((perm_arranged hs fun z hz => (hinside z hz).1).mem_iff.1 hy)
  rw [place_tree hs hnested, hparent]

theorem tree_value (h : Proper s x) (hx : x.path ∈ arrays s) (j : Joined) :
    (tree s j x).value (layout s .root) = value s x := by
  suffices hall : ∀ j k : Joined,
      (tree s j x).value (layout s .root) = (tree s k x).value (layout s .root) from hall j _
  induction h with
  | @mk path cells children uid numbered inside hangs counted below ih =>
    intro j k
    change path ∈ arrays s at hx
    rw [value_tree hs hx cells inside, value_tree hs hx cells inside]
    refine congrArg (List.foldl _ _) (map_congr_left fun y hy => ?_)
    have hmem := (perm_arranged hs fun z hz => (inside z hz).1).mem_iff.1 hy
    rw [ih y hmem ((mem_arrays hs).2 (.inr (inside y hmem).1)) _ (k.down s path cells)]

/-- A row is what its columns make up, and the values of the rows that hang on it are put there. -/
theorem value_mk (h : Proper s x) (hx : x.path ∈ arrays s) :
    value s x = ((arranged s x.children).map fun y => (y.path.relativeTo x.path, value s y)).foldl
      (fun v e => v.appendAt e.1 e.2)
      (orEmpty (columnsJson x.cells (valueColumnsOf s x.path))) := by
  cases h with
  | @mk path cells children uid numbered inside hangs counted below =>
    change path ∈ arrays s at hx
    rw [value, value_tree hs hx cells inside]
    refine congrArg (List.foldl _ _) (map_congr_left fun y hy => ?_)
    have hmem := (perm_arranged hs fun z hz => (inside z hz).1).mem_iff.1 hy
    rw [tree_value hs (below y hmem) ((mem_arrays hs).2 (.inr (inside y hmem).1))]
    rfl

omit hs in
theorem fills_presence (hlaid : s.Laid) (h : Proper s x) {m : Path} :
    s.Fills x.path x.cells (m, .presence) ↔ x.kids m ≠ [] := by
  have hcount : ∀ hm : m ∈ s.nested, s.parentNestedPath m = x.path →
      ((x.cells (s.columnName m .presence)).isNull = false ↔ x.kids m ≠ []) := by
    intro hm hparent
    obtain ⟨k, horders, hcounter⟩ := h.counted hm hparent
    have hlength := congrArg List.length horders
    rw [length_map, length_map, length_range] at hlength
    change (x.cells (s.counterName m)).isNull = false ↔ _
    rw [hcounter]
    by_cases hk : k = 0
    · rw [if_pos hk, eq_nil_of_length_eq_zero (hlength.trans hk)]
      exact ⟨fun hnot => Bool.noConfusion hnot, fun hne => absurd rfl hne⟩
    · rw [if_neg hk]
      refine ⟨fun _ hnil => hk ?_, fun _ => rfl⟩
      rw [← hlength, hnil]
      rfl
  constructor
  · rintro ⟨hlabel, _, hhome, hsome⟩
    exact (hcount ((hlaid.counted m).2 hlabel) hhome).1 hsome
  · intro hkids
    obtain ⟨y, hy⟩ := exists_mem_of_ne_nil _ hkids
    obtain ⟨hy, hpath⟩ := mem_filter.1 hy
    have hinside : m ∈ s.nested ∧ s.parentNestedPath m = x.path := by
      cases h with
      | mk uid numbered inside => exact eq_of_beq hpath ▸ inside y hy
    exact ⟨(hlaid.counted m).1 hinside.1, nofun, hinside.2, (hcount hinside.1 hinside.2).2 hkids⟩

end

section

variable {s : Snowflake} (hs : s.Laid) {x : Node} (h : Proper s x)

include hs h

/-- What a row has something under are the labels of its columns, and of the
    arrays with rows that hang on it. -/
theorem perm_content :
    (s.content x.path x.cells).Perm ((s.filledColumns x.path x.cells).map Column.label ++
      ((arrays s).filter fun m => !(x.kids m).isEmpty).map fun m => (m, .presence)) := by
  refine (perm_ext_iff_of_nodup (hs.unique.sublist filter_sublist) ?_).2 fun label => ?_
  · refine nodup_append.2 ⟨nodup_filledColumns hs, ?_, fun a ha b hb heq => ?_⟩
    · exact pairwise_map.2 (((nodup_arrays hs.toArraysOrdered).sublist filter_sublist).imp
        fun hne heq => hne (Prod.mk.inj heq).1)
    · obtain ⟨m, _, rfl⟩ := mem_map.1 hb
      exact ((mem_filledColumns hs).1 ha).2 (heq ▸ rfl)
  · change label ∈ s.content x.path x.cells ↔ _
    rw [mem_content, mem_append, mem_filledColumns hs, mem_map]
    constructor
    · intro hfills
      by_cases hpresence : label.2 = .presence
      · have hlabel : label = (label.1, .presence) := Prod.ext rfl hpresence
        rw [hlabel] at hfills
        refine .inr ⟨label.1, mem_filter.2 ⟨?_, ?_⟩, hlabel.symm⟩
        · exact (mem_arrays hs.toArraysOrdered).2 (.inr ((hs.counted _).2 hfills.1))
        · have hkids := (fills_presence hs h).1 hfills
          simpa using hkids
      · exact .inl ⟨hfills, hpresence⟩
    · rintro (⟨hfills, _⟩ | ⟨m, hm, rfl⟩)
      · exact hfills
      · refine (fills_presence hs h).2 ?_
        simpa using (mem_filter.1 hm).2

omit h in
theorem pairwise_change (hreads : s.Reads x.path x.cells) :
    ((s.content x.path x.cells).map (change s x)).Pairwise fun d e => Apart d.keys e.keys :=
  pairwise_map.2 (hreads.pairwise hs (hs.unique.sublist filter_sublist) fun _ hlabel =>
    mem_content.1 hlabel)

theorem value_eq (hx : x.path ∈ arrays s) (hreads : s.Reads x.path x.cells) :
    value s x = orEmpty ((run ((s.content x.path x.cells).map (change s x)) .null).getD .null) := by
  have harrays := hs.toArraysOrdered
  have hapart := pairwise_change hs hreads
  have hsome := isSome_run hapart fun e _ => isSome_modifyAt?_null e.change e.keys
  obtain ⟨w, hw⟩ := Option.isSome_iff_exists.1 hsome
  have hinside : ∀ y ∈ x.children, y.path ∈ s.nested ∧ s.parentNestedPath y.path = x.path := by
    cases h with
    | mk uid numbered inside => exact inside
  have hmem : ∀ y ∈ arranged s x.children, y ∈ x.children := fun y hy =>
    (perm_arranged harrays fun z hz => (hinside z hz).1).mem_iff.1 hy
  -- the columns come first, and then the arrays by table
  have hrun := run_perm ((perm_content hs h).map (change s x)) hapart .null
  rw [hw, map_append, run_append, map_map (f := fun m => (m, DataType.presence))] at hrun
  obtain ⟨u, hcells, hrest⟩ := Option.bind_eq_some_iff.1 hrun.symm
  have hcolumns : columnsJson x.cells (valueColumnsOf s x.path) = u := by
    have hedits : ((s.filledColumns x.path x.cells).map Column.label).map (change s x) =
        ((s.filledColumns x.path x.cells).map Column.label).map fun label =>
          ⟨label.1.keys.drop x.path.depth, fun _ => s.labelValue x.cells label⟩ :=
      map_congr_left fun label hlabel =>
        congrArg (Edit.mk _) (if_neg ((mem_filledColumns hs).1 hlabel).2)
    rw [hreads.columnsJson_eq hs, ← hedits, hcells, Option.getD_some]
  have hkeys : ∀ m, x.kids m ≠ [] → (m.relativeTo x.path).keys = m.keys.drop x.path.depth ∧
      m.keys.drop x.path.depth ≠ [] := by
    intro m hkids
    have hfills := (fills_presence hs h).2 hkids
    refine ⟨(hreads.clean _ hfills).keys_relativeTo (hfills.isUnder hs), fun hnil => ?_⟩
    -- an array lies strictly beneath the one around it
    have hm := (hs.counted m).2 hfills.1
    have hhome : s.parentNestedPath m = x.path := hfills.2.2.1
    have hunder := isUnder_parent harrays hm
    rw [hhome] at hunder
    have hlt := Path.depth_lt_of_isUnder (harrays.canonical m hm)
      (hhome ▸ (isHome_parentNestedPath harrays fun hroot =>
        harrays.not_root (hroot ▸ hm)).canonical
        harrays) hunder.2.symm hunder.1
    rw [drop_eq_nil_iff] at hnil
    exact absurd hnil (Nat.not_le_of_lt hlt)
  rw [value_mk harrays h hx, hcolumns, hw, Option.getD_some]
  refine foldl_appendAt (isNull_orEmpty u) (fun e he => ?_) ?_
  · obtain ⟨y, hy, rfl⟩ := mem_map.1 he
    have hkid : y ∈ x.kids y.path := mem_filter.2 ⟨hmem y hy, beq_self_eq_true _⟩
    have hy := hkeys y.path (ne_nil_of_mem hkid)
    exact hy.1 ▸ hy.2
  · have hpushed := run_flatMap_pushed (fun m => m.keys.drop x.path.depth)
      (fun m => (x.kids m).map (value s)) (arrays s) (orEmpty u)
    simp only [isEmpty_map] at hpushed
    have hedits : (arranged s x.children).map (fun y => (y.path.relativeTo x.path, value s y)) =
        (arrays s).flatMap fun m => (x.kids m).map fun y => (m.relativeTo x.path, value s y) := by
      rw [arranged, map_flatMap]
      refine flatMap_congr fun m _ => map_congr_left fun y hy => ?_
      rw [eq_of_beq (mem_filter.1 hy).2]
    rw [← run_orEmpty (fun e he => ?_) hrest, hedits, map_flatMap]
    · refine Eq.trans (congrArg (run · _) (flatMap_congr fun m _ => ?_)) hpushed
      rw [map_map, map_map]
      refine map_congr_left fun y hy => ?_
      exact congrArg (Edit.mk · _) (hkeys m (ne_nil_of_mem hy)).1
    · obtain ⟨m, hm, rfl⟩ := mem_map.1 he
      exact (hkeys m (by simpa using (mem_filter.1 hm).2)).2

end

section

variable {s : Snowflake} {tables : Tables} {forest : List Node}

theorem StoredAs.documents_eq (hs : s.ArraysOrdered) (h : StoredAs s tables forest) :
    (layout s .root).documents (documentRows s tables) = .ok (forest.map (value s)) := by
  have hroots : ∀ x ∈ forest, x.path ∈ arrays s := fun x hx =>
    (mem_arrays hs).2 (.inl (h.sprouted.documents x hx))
  have hvalues : (trees s forest).map (RowTree.value (layout s .root)) = forest.map (value s) := by
    have hfirst := congrArg (List.map (value s)) (zipIdx_map_fst 1 forest)
    rw [trees, map_map, ← hfirst, map_map]
    refine map_congr_left fun x hx => ?_
    have hmem := fst_mem_of_mem_zipIdx hx
    exact tree_value hs (h.sprouted.proper _ hmem) (hroots _ hmem) _
  rw [h.documentRows_eq hs, RowTree.documents_listing, hvalues]
  · refine forall_mem_map.2 fun x hx => ?_
    have hmem := fst_mem_of_mem_zipIdx hx
    exact fits_tree hs (h.sprouted.proper _ hmem) (hroots _ hmem) _
  · refine forall_mem_map.2 fun x hx => ?_
    have hmem := fst_mem_of_mem_zipIdx hx
    refine ⟨_, by rw [row_tree]; exact tableOf_resultRow (hroots _ hmem) _, ?_⟩
    rw [h.sprouted.documents _ hmem]
    rfl

end

end Node

end Snowbank
