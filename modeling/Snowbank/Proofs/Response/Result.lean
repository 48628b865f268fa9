import Snowbank.Proofs.Plan.Layout
import Snowbank.Proofs.Snowflake.Stored

/-!
# The Result of a Statement for Whole Documents

The statement selects the rows of documents and numbers them. For every table
it then joins the rows of that table with the rows around them, up to the
selected ones. Such a chain of rows becomes one row of the result: the values
of its last row, and its place, which is the number of the document and then,
level by level, the table and the position in the array. By that place the
result is sorted.

## Main definitions

* `Joined`: Rows joined with each other, from a selected row down.
* `documentRows`: The rows of the result.

## Theorems

* `table?_layout`: A table is found by its position.
* `rowValue_resultRow`: The values of a row are read from its own columns.
-/

namespace Snowbank

open List Ordered Path Snowflake
open DocumentLayout (cell rowValue)

variable {n : Path}

/-- The place of a count in the order of rows, null before all others. -/
def Json.rank (v : Json) : Nat := match v.nat? with
  | some n => n + 1
  | none => 0

/-- The order of places: the first number in which they differ decides. -/
def placeLe : List Nat → List Nat → Bool
  | [], _ => true
  | _ :: _, [] => false
  | x :: xs, y :: ys => decide (x < y) || x == y && placeLe xs ys

/-- Rows joined with each other, from a selected row down, each with its table by position. -/
structure Joined where
  /-- The number of the selected row. -/
  position : Nat
  chain : List (Nat × Cells)

/-- The row at the end. -/
def Joined.last (j : Joined) : Cells := ((j.chain.getLast?).map Prod.snd).getD fun _ => .null

namespace Plan

variable (s : Snowflake)

/-- The arrays that hold parts of documents. -/
abbrev arrays : List Path := documentPaths s .root

/-- The layouts of these arrays. -/
abbrev layouts : List TableLayout := (layout s .root).tables

/-- The rows of documents, numbered in order. -/
def selectedRows (tables : Tables) : List Joined :=
  ((sortBy (fun a b : Cells => decide (a.uid.rank ≤ b.uid.rank)) (tables s.fact)).zipIdx
    1).map fun (r, position) => ⟨position, [(0, r)]⟩

/-- Join the rows of one more table to rows that they hang on. -/
def joinTable (tables : Tables) (joined : List Joined) (index : Nat) : List Joined :=
  joined.flatMap fun j =>
    ((tables (s.tableName (pathAt (layouts s) index))).filter fun r => r.parent == j.last.uid).map
      fun r => ⟨j.position, j.chain ++ [(index, r)]⟩

/-- The rows of one table, joined with the rows around them. -/
def branchRows (tables : Tables) (index : Nat) : List Joined :=
  (chainOf (layouts s) (layouts s).length index).tail.foldl (joinTable s tables)
    (selectedRows s tables)

/-- The place of a row at a depth: its table and its position in the array. -/
def placeAt (j : Joined) (depth : Nat) : List Json := match j.chain[depth + 1]? with
  | some (index, r) => [.nat index, r.order]
  | none => [.null, .null]

/-- The values of a row in the columns of a table, which may be another one. -/
def partOf (index : Nat) (r : Cells) (table : Path × Nat) : List Json :=
  (valueColumnsOf s table.1).map fun c => if table.2 == index then r c.physical else .null

/-- The values of a row in the columns of all tables. -/
def cellsAt (index : Nat) (r : Cells) : List Json := (arrays s).zipIdx.flatMap (partOf s index r)

/-- The row of the result for joined rows that end in a table. -/
def resultRow (index : Nat) (j : Joined) : List Json :=
  [.nat index, j.last.uid, if index == 0 then .null else j.last.parent, .nat j.position] ++
    (List.range (maxDepth s .root)).flatMap (placeAt j) ++ cellsAt s index j.last

/-- What a row of the result is sorted by. -/
def rowKey (row : List Json) : List Nat :=
  ((row.drop 3).take (2 * maxDepth s .root + 1)).map Json.rank

/-- The rows of the result of a statement for whole documents. -/
def documentRows (tables : Tables) : List (List Json) :=
  sortBy (fun a b => placeLe (rowKey s a) (rowKey s b))
    ((List.range (layouts s).length).flatMap fun index =>
      (branchRows s tables index).map (resultRow s index))

section

variable {s} (hs : s.ArraysOrdered)

include hs

theorem arrays_eq : arrays s = .root :: s.nestedPaths := by
  refine congrArg _ (filter_eq_self.2 fun n hn => ?_)
  have hmem : n ∈ s.nested := (perm_sortBy _).mem_iff.1 hn
  rw [isUnder_root, Bool.and_true, bne_iff_ne]
  exact fun hroot => hs.not_root (hroot ▸ hmem)

theorem inner (hn : n ∈ s.nested) : n ∈ s.nested ∧ n ≠ .root ∧ n.isUnder .root :=
  ⟨hn, fun h => hs.not_root (h ▸ hn), isUnder_root n⟩

theorem mem_arrays : n ∈ arrays s ↔ n = .root ∨ n ∈ s.nested :=
  mem_documentPaths.trans (or_congr_right ⟨And.left, inner hs⟩)

theorem nodup_arrays : (arrays s).Nodup := nodup_documentPaths hs .root

theorem map_idxOf_arrays : (arrays s).map ((arrays s).idxOf ·) = List.range (arrays s).length := by
  refine ext_getElem (by rw [length_map, length_range]) fun i hi _ => ?_
  rw [getElem_map, getElem_range, (nodup_arrays hs).idxOf_getElem]

theorem idxOf_parent_lt (hn : n ∈ s.nested) :
    (arrays s).idxOf (s.parentNestedPath n) < (arrays s).idxOf n :=
  idxOf_parent_lt_idxOf hs (.inl rfl) (inner hs hn)

end

section

variable {n : Path}

theorem length_layouts : (layouts s).length = (arrays s).length :=
  (length_map ..).symm.trans (congrArg length (map_nestedPath_tableLayouts s .root _ _))

/-- Where the columns of an array begin in the result. -/
def pullOf (n : Path) : Nat := (headColumns s .root).length +
    (((arrays s).take ((arrays s).idxOf n)).flatMap (valueColumnsOf s)).length

variable {s}

theorem table?_layout (hn : n ∈ arrays s) :
    (layouts s)[(arrays s).idxOf n]? = some (tableAt s .root (pullOf s n) n) := by
  have hlt := idxOf_lt_length_of_mem hn
  change (tableLayouts s .root _ (arrays s))[_]? = _
  rw [getElem?_tableLayouts, getElem?_eq_getElem hlt, getElem_idxOf]
  rfl

theorem pathAt_idxOf (hn : n ∈ arrays s) : pathAt (layouts s) ((arrays s).idxOf n) = n := by
  rw [pathAt, table?_layout hn]
  rfl

variable (hs : s.ArraysOrdered)

include hs

theorem parent_tableAt (hn : n ∈ s.nested) (pull : Nat) :
    (tableAt s .root pull n).parent = some ((arrays s).idxOf (s.parentNestedPath n)) ∧
      (tableAt s .root pull n).path = n.relativeTo (s.parentNestedPath n) :=
  parent_tableAt_of_mem s .root (inner hs hn).2.1
    (parent_mem_documentPaths hs (.inl rfl) (inner hs hn)) pull

/-- The arrays from the documents down to an array. -/
theorem chainOf_idxOf (hn : n ∈ s.nested) {fuel : Nat} (hfuel : (arrays s).idxOf n ≤ fuel) :
    chainOf (layouts s) fuel ((arrays s).idxOf n) =
      chainOf (layouts s) (fuel - 1) ((arrays s).idxOf (s.parentNestedPath n)) ++
        [(arrays s).idxOf n] := by
  have hlt := idxOf_parent_lt hs hn
  cases fuel with
  | zero => omega
  | succ fuel =>
    rw [chainOf, table?_layout ((mem_arrays hs).2 (.inr hn)), Option.bind_some,
      (parent_tableAt hs hn _).1]
    rfl

theorem idxOf_root : (arrays s).idxOf .root = 0 := by
  rw [arrays_eq hs, idxOf_cons_self]

omit hs in
theorem chainOf_ne_nil (tables : List TableLayout) (fuel i : Nat) : chainOf tables fuel i ≠ [] := by
  cases fuel with
  | zero => exact cons_ne_nil _ _
  | succ fuel =>
    rw [chainOf]
    split
    · exact cons_ne_nil _ _
    · exact append_ne_nil_of_right_ne_nil _ (cons_ne_nil _ _)

theorem chainOf_root (fuel : Nat) : chainOf (layouts s) fuel 0 = [0] := by
  cases fuel with
  | zero => rfl
  | succ fuel =>
    have htable := table?_layout ((mem_arrays hs).2 (.inl rfl))
    rw [idxOf_root hs] at htable
    rw [chainOf, htable]
    rfl

end

section

variable {s} (hs : s.ArraysOrdered)

include hs

variable {n : Path}

/-- Around an array there is one array more than around the one around it. -/
theorem nestedPathList_cons (hn : n ∈ s.nested) :
    s.nestedPathList n = n :: s.nestedPathList (s.parentNestedPath n) := by
  have hhome := isHome_parentNestedPath hs fun hroot => hs.not_root (hroot ▸ hn)
  have hsorted : (n :: s.nestedPathList (s.parentNestedPath n)).Pairwise fun a b : Path =>
      b.depth < a.depth := by
    refine pairwise_cons.2 ⟨fun array hmem => ?_, pairwise_nestedPathList hs _⟩
    -- an array does not lie in what is around it
    exact Nat.lt_of_le_of_lt (depth_le_of_isUnder (mem_nestedPathList.1 hmem).2)
      (depth_lt_of_isUnder (hs.canonical n hn) (hhome.canonical hs) (hhome.outside rfl).symm
        hhome.under)
  have hnodup : ∀ {paths : List Path}, paths.Pairwise (fun a b => b.depth < a.depth) →
    paths.Nodup :=
    fun h => h.imp fun hlt heq => absurd (heq ▸ hlt) (Nat.lt_irrefl _)
  refine Perm.eq_of_pairwise (fun a b _ _ hab hba => absurd hab (Nat.lt_asymm hba))
    (pairwise_nestedPathList hs n) hsorted ((perm_ext_iff_of_nodup
      (hnodup (pairwise_nestedPathList hs n)) (hnodup hsorted)).2 fun array => ?_)
  rw [mem_cons, mem_nestedPathList, mem_nestedPathList]
  constructor
  · rintro ⟨hknown, hunder⟩
    refine or_iff_not_imp_left.2 fun hne => ⟨hknown, ?_⟩
    exact isUnder_of_depth_le hhome.under hunder
      (hhome.deepest array ⟨hknown, hunder, fun _ => hne⟩)
  · rintro (rfl | ⟨hknown, hunder⟩)
    · exact ⟨.inr hn, isUnder_refl _⟩
    · exact ⟨hknown, isUnder_trans hhome.under hunder⟩

theorem length_nestedPathList (hn : n ∈ s.nested) :
    (s.nestedPathList n).length = (s.nestedPathList (s.parentNestedPath n)).length + 1 := by
  rw [nestedPathList_cons hs hn, length_cons]

omit hs in
theorem le_foldl_max {start x : Nat} {xs : List Nat} (h : x ≤ start ∨ x ∈ xs) :
    x ≤ xs.foldl max start := by
  induction xs generalizing start with
  | nil => exact h.elim id fun hmem => absurd hmem not_mem_nil
  | cons y rest ih =>
    refine ih ?_
    rcases h with h | h
    · exact .inl (Nat.le_trans h (Nat.le_max_left _ _))
    · rcases mem_cons.1 h with rfl | h
      · exact .inl (Nat.le_max_right _ _)
      · exact .inr h

theorem nestedPathList_root : s.nestedPathList .root = [.root] := by
  have hnone : s.nested.filter Path.root.isUnder = [] := by
    refine filter_eq_nil_iff.2 fun m hm hunder => hs.not_root ?_
    have hsame := isUnder_antisymm canonical_root (hs.canonical m hm) hunder (isUnder_root m)
    exact hsame ▸ hm
  rw [nestedPathList, hnone]
  rfl

theorem length_nestedPathList_le (hn : n ∈ arrays s) :
    (s.nestedPathList n).length ≤ maxDepth s .root + 1 := by
  have hroot : (s.nestedPathList .root).length = 1 := congrArg List.length (nestedPathList_root hs)
  have hle : depthBelow s .root n ≤ maxDepth s .root := le_foldl_max (.inr (mem_map_of_mem hn))
  unfold depthBelow at hle
  omega

end

section

theorem length_placeAt (j : Joined) (depth : Nat) : (placeAt j depth).length = 2 := by
  unfold placeAt
  split <;> rfl

theorem length_places (j : Joined) (depth : Nat) :
    ((List.range depth).flatMap (placeAt j)).length = 2 * depth := by
  rw [length_flatMap, map_congr_left fun d _ => length_placeAt j d]
  simp [Nat.mul_comm]

theorem length_cells (index start : Nat) (r : Cells) (paths : List Path) :
    ((paths.zipIdx start).flatMap (partOf s index r)).length =
      (paths.flatMap (valueColumnsOf s)).length := by
  induction paths generalizing start with
  | nil => rfl
  | cons path rest ih =>
    rw [zipIdx_cons, flatMap_cons, length_append, partOf, length_map, ih,
      flatMap_cons, length_append]

theorem length_resultRow (index : Nat) (j : Joined) :
    (resultRow s index j).length = (documentColumns s .root).length := by
  unfold resultRow documentColumns
  rw [length_append, length_append, length_places, cellsAt, length_cells, length_append,
    length_headColumns, length_map, length_zipIdx]
  rfl

variable {s}

theorem cellsAt_eq (hn : n ∈ arrays s) (r : Cells) :
    ∃ front back, cellsAt s ((arrays s).idxOf n) r =
        front ++ ((valueColumnsOf s n).map (fun c => r c.physical) ++ back) ∧
      front.length =
      (((arrays s).take ((arrays s).idxOf n)).flatMap (valueColumnsOf s)).length := by
  have hlt := idxOf_lt_length_of_mem hn
  have hdrop := drop_eq_getElem_cons hlt
  rw [getElem_idxOf] at hdrop
  generalize (arrays s).idxOf n = index at *
  have hsplit : arrays s = (arrays s).take index ++ n :: (arrays s).drop (index + 1) := by
    rw [← hdrop, take_append_drop]
  have hlength : 0 + ((arrays s).take index).length = index := by
    rw [length_take]
    omega
  have hown : partOf s index r (n, index) = (valueColumnsOf s n).map fun c => r c.physical := by
    simp [partOf]
  have hcells := congrArg (fun paths => paths.zipIdx.flatMap (partOf s index r)) hsplit
  simp only [zipIdx_append, flatMap_append, zipIdx_cons, flatMap_cons, hlength, hown] at hcells
  exact ⟨_, _, hcells, length_cells s index 0 r _⟩

/-- Put the value of a column where its name says. -/
def putColumn (r : Cells) (out : Json) (c : Column) : Json := match untyped? c.physical with
  | none => out
  | some (path, type) =>
    let v := Json.typedValue type (r c.physical) (r c.physical).decode
    if v.isNull then out else out.setPath path v

/-- What the values of columns make up. -/
def columnsJson (r : Cells) (columns : List Column) : Json := columns.foldl (putColumn r) .null

theorem foldl_cells {β : Type} (f : β → String → Json → β) (r : Cells)
    (back : List Json) (base : Nat)
    (columns : List Column) (front : List Json) (start : Nat) (h : front.length = base + start)
    (init : β) :
    ((columns.zipIdx start).map fun (c, i) => (base + i, c.physical)).foldl
    (fun out (pull, column) =>
        f out column (cell (front ++ (columns.map (fun c => r c.physical) ++ back)) pull)) init =
      columns.foldl (fun out c => f out c.physical (r c.physical)) init := by
  induction columns generalizing front start init with
  | nil => rfl
  | cons c rest ih =>
    have hcell : cell
        (front ++ (r c.physical :: (rest.map (fun c => r c.physical) ++ back))) (base + start) =
        r c.physical := by
      rw [cell, ← h, getElem?_append_right (Nat.le_refl _), Nat.sub_self]
      rfl
    have hnext : (front ++ [r c.physical]).length = base + (start + 1) := by
      rw [length_append, h]
      rfl
    simp only [zipIdx_cons, map_cons, foldl_cons, cons_append]
    rw [hcell, ← ih _ _ hnext, append_assoc]
    rfl

theorem rowValue_resultRow (hn : n ∈ arrays s) (j : Joined) :
    rowValue (tableAt s .root (pullOf s n) n) (resultRow s ((arrays s).idxOf n) j) =
      if (columnsJson j.last (valueColumnsOf s n)).isNull then .obj []
      else columnsJson j.last (valueColumnsOf s n) := by
  obtain ⟨front, back, hcells, hlength⟩ := cellsAt_eq hn j.last
  unfold rowValue resultRow
  rw [hcells, ← append_assoc]
  have hfold := foldl_cells (fun out column raw =>
    match untyped? column with
    | none => out
    | some (path, type) =>
      let v := Json.typedValue type raw raw.decode
      if v.isNull then out else out.setPath path v) j.last back (pullOf s n) (valueColumnsOf s n)
    ([.nat ((arrays s).idxOf n), j.last.uid,
      if (arrays s).idxOf n == 0 then .null else j.last.parent, .nat j.position] ++
        (List.range (maxDepth s Path.root)).flatMap (placeAt j) ++ front) 0 ?_ Json.null
  · exact congrArg (fun v : Json => if v.isNull then Json.obj [] else v) hfold
  · rw [length_append, length_append, length_places, hlength, pullOf, length_headColumns]
    rfl

end

end Plan

end Snowbank
