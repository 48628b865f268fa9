import Mathlib.Data.List.Nodup
import Snowbank.Proofs.Snowflake.Placement

/-!
# Layouts of Documents

The layout of a result for whole documents says which columns are whose and
where the rows of a table go. What is to be known of it comes from the order of
the arrays. They stand by depth, so the array around an array stands before it.
The columns of the arrays follow each other, after those that all rows have, so
no position is used twice and none is left out.

## Main definitions

* `pulls`: The positions of all columns.
* `WellFormed`: A layout that rows can be read by.

## Theorems

* `nodup_documentPaths`: Every array stands once.
* `layout_wellFormed`: The layout that is compiled is well formed.
-/

namespace Snowbank.Plan

open List Snowflake Ordered Column

variable (s : Snowflake) (root : Path)

section

variable {s root} {n : Path}

theorem mem_beneath : n ∈ s.nestedPaths.filter (fun n => n != root && n.isUnder root) ↔
    n ∈ s.nested ∧ n ≠ root ∧ n.isUnder root := by
  rw [mem_filter, nestedPaths, (perm_sortBy _).mem_iff, Bool.and_eq_true, bne_iff_ne]

theorem mem_documentPaths :
    n ∈ documentPaths s root ↔ n = root ∨ n ∈ s.nested ∧ n ≠ root ∧ n.isUnder root := by
  rw [documentPaths, mem_cons, mem_beneath]

theorem nodup_documentPaths (hs : s.ArraysOrdered) (root : Path) : (documentPaths s root).Nodup :=
  nodup_cons.2 ⟨fun h => (mem_beneath.1 h).2.1 rfl,
    ((perm_sortBy _).nodup_iff.2 hs.increasing.nodup).filter _⟩

theorem depth_documentPaths (s : Snowflake) (root : Path) :
    (documentPaths s root).Pairwise fun a b => a.depth ≤ b.depth := by
  have hsorted := pairwise_sortBy (fun a b : Path => decide (a.depth ≤ b.depth))
    (fun a b h => by simp only [decide_eq_false_iff_not, decide_eq_true_eq] at h ⊢; omega)
    (fun a b c hab hbc => by simp only [decide_eq_true_eq] at hab hbc ⊢; omega) s.nested
  refine pairwise_cons.2 ⟨fun n hn => ?_, (hsorted.imp fun h => by simpa using h).filter _⟩
  exact Path.depth_le_of_isUnder (mem_beneath.1 hn).2.2

variable (hs : s.ArraysOrdered) (hroot : root = .root ∨ root ∈ s.nested)
  (hn : n ∈ s.nested ∧ n ≠ root ∧ n.isUnder root)

include hs hroot hn

/-- What is around an array beneath a path is that path or lies beneath it. -/
theorem parent_mem_documentPaths : s.parentNestedPath n ∈ documentPaths s root := by
  have hhome := isHome_parentNestedPath hs fun h => hs.not_root (h ▸ hn.1)
  have hdepth := hhome.deepest root ⟨hroot, hn.2.2, fun _ => hn.2.1.symm⟩
  have habove := Path.isUnder_of_depth_le hhome.under hn.2.2 hdepth
  refine mem_documentPaths.2 (or_iff_not_imp_left.2 fun hparent => ⟨?_, hparent, habove⟩)
  refine hhome.known.resolve_left fun heq => hparent ?_
  have hcanonical : root.Canonical := hroot.elim (· ▸ Path.canonical_root) (hs.canonical root)
  rw [heq] at habove ⊢
  exact Path.isUnder_antisymm Path.canonical_root hcanonical habove (Path.isUnder_root root)

theorem idxOf_parent_lt_idxOf :
    (documentPaths s root).idxOf (s.parentNestedPath n) < (documentPaths s root).idxOf n := by
  have hhome := isHome_parentNestedPath hs fun h => hs.not_root (h ▸ hn.1)
  have hmem := parent_mem_documentPaths hs hroot hn
  have hdepth : (s.parentNestedPath n).depth < n.depth :=
    Path.depth_lt_of_isUnder (hs.canonical n hn.1) (hhome.canonical hs)
      (fun heq => hhome.outside rfl heq.symm) hhome.under
  refine Nat.lt_of_not_le fun hle => ?_
  have hlt := idxOf_lt_length_of_mem hmem
  rcases Nat.eq_or_lt_of_le hle with heq | hless
  · have hsame := (idxOf_inj hmem).1 heq.symm
    exact absurd (hsame ▸ hdepth) (Nat.lt_irrefl _)
  · have hsorted := pairwise_iff_getElem.1 (depth_documentPaths s root) _ _
      (Nat.lt_of_le_of_lt hle hlt) hlt hless
    rw [getElem_idxOf, getElem_idxOf] at hsorted
    omega

end

/-- The layout of an array whose columns begin at a position of the result. -/
def tableAt (pull : Nat) (n : Path) : TableLayout :=
  let parent := if n == root then none else parentIndex s root n
  ⟨n, match parent.bind fun p => (documentPaths s root)[p]? with
    | some above => n.relativeTo above
    | none => .root, parent, (valueColumnsOf s n).zipIdx.map fun (c, i) => (pull + i, c.physical)⟩

theorem getElem?_tableLayouts (pull : Nat) (paths : List Path) (i : Nat) :
    (tableLayouts s root pull paths)[i]? = (paths[i]?).map
      (tableAt s root (pull + ((paths.take i).flatMap (valueColumnsOf s)).length)) := by
  induction paths generalizing pull i with
  | nil => rfl
  | cons n rest ih =>
    cases i with
    | zero => rfl
    | succ i =>
      rw [tableLayouts, getElem?_cons_succ, getElem?_cons_succ, ih, take_succ_cons,
        flatMap_cons, length_append, Nat.add_assoc]

theorem map_nestedPath_tableLayouts (pull : Nat) (paths : List Path) :
    (tableLayouts s root pull paths).map TableLayout.nestedPath = paths := by
  induction paths generalizing pull with
  | nil => rfl
  | cons n rest ih => rw [tableLayouts, map_cons, ih]

/-- The columns of the arrays stand one after the other. -/
theorem flatMap_pulls_tableLayouts (pull : Nat) (paths : List Path) :
    (tableLayouts s root pull paths).flatMap (fun t => t.columns.map Prod.fst) =
      range' pull (paths.flatMap (valueColumnsOf s)).length := by
  induction paths generalizing pull with
  | nil => rfl
  | cons n rest ih =>
    rw [tableLayouts, flatMap_cons, flatMap_cons, ih, length_append, ← range'_append_1]
    refine congrArg (· ++ _) ?_
    rw [map_map, ← Nat.add_zero pull, ← map_add_range', ← zipIdx_map_snd, map_map]
    rfl

theorem map_physical_tableLayouts {pull : Nat} {paths : List Path} :
    ∀ t ∈ tableLayouts s root pull paths, t.columns.map Prod.snd =
      (valueColumnsOf s t.nestedPath).map physical := by
  induction paths generalizing pull with
  | nil => exact forall_mem_nil _
  | cons n rest ih => exact forall_mem_cons.2 ⟨(map_map ..).trans (map_fst_zipIdx physical _), ih⟩

theorem length_headColumns : (headColumns s root).length = 4 + 2 * maxDepth s root := by
  unfold headColumns
  rw [length_append, length_map, length_flatMap]
  simp [Nat.mul_comm]

/-- The layout of an array says where it stands in the array around it. -/
theorem parent_tableAt_of_mem {n : Path} (hne : n ≠ root)
    (hmem : s.parentNestedPath n ∈ documentPaths s root) (pull : Nat) :
    (tableAt s root pull n).parent = some ((documentPaths s root).idxOf (s.parentNestedPath n)) ∧
      (tableAt s root pull n).path = n.relativeTo (s.parentNestedPath n) := by
  have hlt := idxOf_lt_length_of_mem hmem
  have hindex :
    parentIndex s root n = some ((documentPaths s root).idxOf (s.parentNestedPath n)) := by
    rw [parentIndex, List.findIdx?_eq_some_iff_findIdx_eq]
    exact ⟨hlt, rfl⟩
  unfold tableAt
  rw [if_neg (by simpa using hne), hindex]
  dsimp only
  rw [Option.bind_some, getElem?_eq_getElem hlt, getElem_idxOf]
  exact ⟨rfl, rfl⟩

/-- The positions of all columns: the table and the numbers of a row, its place in the order, and
    the values. -/
def pulls (layout : DocumentLayout) : List Nat :=
  [layout.kind, layout.uid, layout.pid] ++ range' 3 (2 * maxDepth s root + 1) ++
    layout.tables.flatMap fun t => t.columns.map Prod.fst

/-- Every position of the result is used once. -/
theorem pulls_layout :
    pulls s root (layout s root) = List.range (documentColumns s root).length := by
  have hvalues : (layout s root).tables.flatMap (fun t => t.columns.map Prod.fst) = _ :=
    flatMap_pulls_tableLayouts s root _ _
  have hwidth : (documentColumns s root).length =
      3 + (2 * maxDepth s root + 1) + (cellColumns s root).length := by
    rw [documentColumns, length_append, length_headColumns, length_map, length_zipIdx]
    omega
  have hhead : [0, 1, 2] ++ range' 3 (2 * maxDepth s root + 1) =
      range' 0 (3 + (2 * maxDepth s root + 1)) := range'_append_1 (s := 0) (m := 3)
  have hstart : (headColumns s root).length = 0 + (3 + (2 * maxDepth s root + 1)) := by
    rw [length_headColumns]
    omega
  change [0, 1, 2] ++ range' 3 _ ++ _ = _
  rw [hvalues, hhead, hstart, range'_append_1, hwidth, range_eq_range']
  rfl

/-- A layout that rows can be read by: the tables are the arrays at and beneath a path, each after
    the one around it and with its place there, and every column has a position of its own. -/
structure WellFormed (mapping : List ColumnMapping) (layout : DocumentLayout) : Prop where
  listed : ∃ beneath, layout.tables.map TableLayout.nestedPath = root :: beneath ∧ beneath.Nodup ∧
    ∀ n, n ∈ beneath ↔ n ∈ s.nested ∧ n ≠ root ∧ n.isUnder root
  hung : ∀ i t, layout.tables[i + 1]? = some t → ∃ p above, t.parent = some p ∧ p < i + 1 ∧
    layout.tables[p]? = some above ∧ above.nestedPath = s.parentNestedPath t.nestedPath ∧
      above.nestedPath.append t.path = t.nestedPath
  columns : ∀ t ∈ layout.tables, t.columns.map Prod.snd =
    (s.columns.filter fun c => c.isValue && c.home == t.nestedPath).map physical
  /-- Which columns come before the values: the table and the numbers, then the place. -/
  named : (mapping.map ColumnMapping.pushName).take (4 + 2 * maxDepth s root) =
    kindColumn 0 :: "__uid" :: "__pid" :: positionColumn 0 ::
      (List.range (maxDepth s root)).flatMap fun d => [kindColumn (d + 1), positionColumn (d + 1)]
  nodup : (pulls s root layout).Nodup
  bounded : ∀ i ∈ pulls s root layout, i < mapping.length

variable {s root} (hs : s.ArraysOrdered)

include hs

theorem wellFormed_layout (hroot : root = .root ∨ root ∈ s.nested) :
    WellFormed s root (ResultColumn.mapping (documentColumns s root)) (layout s root) := by
  have hnames : (ResultColumn.mapping (documentColumns s root)).map ColumnMapping.pushName =
      (documentColumns s root).map ResultColumn.output :=
    (map_map ..).trans (map_fst_zipIdx ResultColumn.output _)
  have hnodup := nodup_documentPaths hs root
  have htable : ∀ i, (layout s root).tables[i]? = _ :=
    getElem?_tableLayouts s root _ (documentPaths s root)
  refine ⟨⟨_, map_nestedPath_tableLayouts s root _ _, (nodup_cons.1 hnodup).2,
    fun _ => mem_beneath⟩, fun i t ht => ?_, map_physical_tableLayouts s root, ?_, ?_, ?_⟩
  · rw [htable] at ht
    obtain ⟨n, hget, rfl⟩ := Option.map_eq_some_iff.1 ht
    have hn := mem_beneath.1 (mem_of_getElem? hget)
    -- no array stands twice, so positions tell arrays
    have hindex : (documentPaths s root).idxOf n = i + 1 := by
      obtain ⟨hlt, rfl⟩ := List.getElem?_eq_some_iff.1 hget
      exact hnodup.idxOf_getElem (i + 1) hlt
    have hmem := parent_mem_documentPaths hs hroot hn
    have hhome := isHome_parentNestedPath hs fun h => hs.not_root (h ▸ hn.1)
    have hparent := parent_tableAt_of_mem s root hn.2.1 hmem
    have habove := htable ((documentPaths s root).idxOf (s.parentNestedPath n))
    rw [getElem?_eq_getElem (idxOf_lt_length_of_mem hmem), getElem_idxOf] at habove
    refine ⟨_, _, (hparent _).1, hindex ▸ idxOf_parent_lt_idxOf hs hroot hn, habove, rfl, ?_⟩
    rw [(hparent _).2]
    exact Path.append_relativeTo (hs.canonical n hn.1) (hhome.canonical hs) hhome.under
  · rw [hnames, documentColumns, map_append, take_left']
    · unfold headColumns
      rw [map_append, map_flatMap]
      rfl
    · rw [length_map, length_headColumns]
  · rw [pulls_layout]
    exact nodup_range
  · intro i hi
    rwa [pulls_layout, mem_range, ← length_zipIdx (i := 0), ← length_map] at hi

/-- What is compiled for a query for whole documents, of a collection or of the items of an array,
    has a layout that is well formed. -/
theorem layout_wellFormed {q : Query} (hshape : Shape.ofQuery q = .documents) {plan : Plan}
    (hplan : q.plan s = .ok plan) :
    ∃ layout, plan.documents = some layout ∧ WellFormed s q.queryPath plan.mapping layout := by
  unfold Query.plan at hplan
  split_ifs at hplan with hfact hpath
  have hroot : q.queryPath = .root ∨ q.queryPath ∈ s.nested := by
    rw [← isNested_iff]
    simpa [or_iff_not_imp_left] using hpath
  dsimp only at hplan
  split_ifs at hplan
  rw [hshape] at hplan
  change wholeDocuments q _ = _ at hplan
  unfold wholeDocuments at hplan
  cases hrows : rowsCte q ⟨s, q.queryPath⟩ with
  | error e =>
    rw [hrows] at hplan
    cases hplan
  | ok rows =>
    rw [hrows] at hplan
    cases hplan
    exact ⟨_, rfl, wellFormed_layout hs hroot⟩

omit hs

/-- The items of an array. -/
def outerItems : Query :=
  ⟨"t.a", "t", "a", [⟨wholeDocument, .var .root .object, .none, none, none⟩], false,
    .yes, [], [], [],
    [], 10, .list, ""⟩

/-- A catalog in which that array has another one in it, made before it. -/
def nestedTwice : Snowflake :=
  [.array 1.0 "a.b", .column 2.0 "a.b.c" .string, .array 3.0 "a", .array 4.0 "d"].foldl ask
    (Snowflake.empty "t")

theorem layout_wellFormed_outerItems : nestedTwice.ArraysOrdered ∧
    Shape.ofQuery outerItems = .documents ∧ ∃ plan layout, outerItems.plan nestedTwice = .ok plan ∧
      plan.documents = some layout ∧ WellFormed nestedTwice "a" plan.mapping layout := by
  have hs : nestedTwice.ArraysOrdered := by
    refine ((laid_empty "t").asks ?_).toArraysOrdered
    simp only [forall_mem_cons, Request.path]
    decide +kernel
  have hshape : Shape.ofQuery outerItems = .documents := by decide
  obtain ⟨plan, hplan⟩ : ∃ plan, outerItems.plan nestedTwice = .ok plan := ⟨_, rfl⟩
  obtain ⟨layout, hlayout, hformed⟩ := layout_wellFormed hs hshape hplan
  exact ⟨hs, hshape, plan, layout, hplan, hlayout, hformed⟩

end Snowbank.Plan
