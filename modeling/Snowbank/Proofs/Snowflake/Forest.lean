import Snowbank.Proofs.Snowflake.Stored

/-!
# Rows as Trees

The rows of a document form a tree: the row of the document, and on each row
the rows of the arrays in it. Tables hold such trees in pieces, each array its
own rows, and what ties the pieces together are numbers. A tree has no need of
them, so what is to be known of rows is seen on trees, node by node.

Tables can be read back. The rows of an array are, in order, those that hang
on the rows of the array around it (`withinAll_eq_flatMap`), so where numbers
are unique the rows with a certain parent are the children of one node.

## Main definitions

* `Node`: A row of an array with the rows that hang on it.
* `Sprouted`: Trees of documents with numbers unique in each array.

## Theorems

* `Sprouted.filter_hangs`: The rows with a parent are the children of a node.
* `Sprouted.closed`: The rows of trees are closed.
-/

namespace Snowbank

open List Snowflake

/-- A row of an array with the rows that hang on it. -/
inductive Node where
  | mk (path : Path) (cells : Cells) (children : List Node)

namespace Node

/-- The array that the row is of. -/
def path : Node → Path
  | mk path _ _ => path

/-- The row. -/
def cells : Node → Cells
  | mk _ cells _ => cells

/-- The rows that hang on it. -/
def children : Node → List Node
  | mk _ _ children => children

/-- The rows of an array that hang on it. -/
def kids (n : Path) (x : Node) : List Node := x.children.filter fun y => y.path == n

mutual

/-- The nodes of an array in a tree, each after those beneath it. -/
def within (n : Path) : Node → List Node
  | mk path cells children =>
    withinAll n children ++ if path = n then [mk path cells children] else []

/-- The nodes of an array in trees. -/
def withinAll (n : Path) : List Node → List Node
  | [] => []
  | x :: rest => within n x ++ withinAll n rest

end

/-- Every child hangs on its node by the number of the row, in an array
    directly inside the array of the row, and the row counts the children. -/
inductive Proper (s : Snowflake) : Node → Prop
  | mk {path : Path} {cells : Cells} {children : List Node} (uid : Int)
      (numbered : cells.uid = .int uid)
      (inside : ∀ y ∈ children, y.path ∈ s.nested ∧ s.parentNestedPath y.path = path)
      (hangs : ∀ y ∈ children, y.cells.parent = .int uid)
      (counted : ∀ n ∈ s.nested, s.parentNestedPath n = path → ∃ k : Nat,
        ((children.filter fun y => y.path == n).map fun y => y.cells.order) =
          (List.range k).map Json.nat ∧
        cells (s.counterName n) = if k = 0 then .null else .nat k)
      (below : ∀ y ∈ children, Proper s y) : Proper s (mk path cells children)

theorem withinAll_eq (n : Path) (forest : List Node) :
    withinAll n forest = forest.flatMap (within n) := by
  induction forest with
  | nil => rfl
  | cons x rest ih => rw [withinAll, ih, flatMap_cons]

theorem withinAll_append (n : Path) (as bs : List Node) :
    withinAll n (as ++ bs) = withinAll n as ++ withinAll n bs := by
  rw [withinAll_eq, withinAll_eq, withinAll_eq, flatMap_append]

theorem kids_eq_flatMap (n : Path) (x : Node) :
    x.kids n = x.children.flatMap fun y => if y.path = n then [y] else [] := by
  unfold kids
  induction x.children with
  | nil => rfl
  | cons y rest ih =>
    rw [filter_cons, flatMap_cons, ih]
    by_cases hy : y.path = n
    · rw [if_pos (beq_iff_eq.2 hy), if_pos hy]
      rfl
    · rw [if_neg fun h => hy (eq_of_beq h), if_neg hy]
      rfl

section

variable {x y : Node} {n : Path}

variable {s : Snowflake}

variable {n : Path}

theorem Proper.numbered (h : Proper s x) : ∃ uid : Int, x.cells.uid = .int uid := by
  cases h with
  | mk uid numbered => exact ⟨uid, numbered⟩

theorem Proper.hangs (h : Proper s x) (hy : y ∈ x.children) : y.cells.parent = x.cells.uid := by
  cases h with
  | mk uid numbered _ hangs => exact (hangs y hy).trans numbered.symm

theorem Proper.counted (h : Proper s x) (hn : n ∈ s.nested)
    (hparent : s.parentNestedPath n = x.path) : ∃ k : Nat,
      (x.kids n).map (fun y => y.cells.order) = (List.range k).map Json.nat ∧
        x.cells (s.counterName n) = if k = 0 then .null else .nat k := by
  cases h with
  | mk _ _ _ _ counted => exact counted n hn hparent

/-- The nodes found in a tree are nodes of the array, and proper themselves.
    Beneath a row there are rows of the arrays of the catalog only. -/
theorem Proper.of_mem_within (h : Proper s x) (hy : y ∈ within n x) :
    Proper s y ∧ y.path = n ∧ (n = x.path ∨ n ∈ s.nested) := by
  induction h with
  | mk uid numbered inside hangs counted below ih =>
    rw [within, withinAll_eq] at hy
    rcases mem_append.1 hy with hy | hy
    · obtain ⟨z, hz, hy⟩ := mem_flatMap.1 hy
      obtain ⟨hproper, hpath, hknown⟩ := ih z hz hy
      exact ⟨hproper, hpath, .inr (hknown.elim (fun heq => heq ▸ (inside z hz).1) id)⟩
    · split at hy
      next hpath =>
        rw [mem_singleton.1 hy]
        exact ⟨.mk uid numbered inside hangs counted below, hpath, .inl hpath.symm⟩
      · cases hy

variable (hs : s.ArraysOrdered)

include hs

theorem isUnder_parent (hn : n ∈ s.nested) :
    n.isUnder (s.parentNestedPath n) ∧ s.parentNestedPath n ≠ n := by
  have hhome := isHome_parentNestedPath hs fun hroot => hs.not_root (hroot ▸ hn)
  exact ⟨hhome.under, hhome.outside rfl⟩

/-- The rows that hang on a row are of arrays beneath its array. -/
theorem Proper.isUnder_of_mem_within (h : Proper s x) (hy : y ∈ within n x) : n.isUnder x.path := by
  induction h with
  | mk uid numbered inside hangs counted below ih =>
    rw [within, withinAll_eq] at hy
    rcases mem_append.1 hy with hy | hy
    · obtain ⟨z, hz, hy⟩ := mem_flatMap.1 hy
      have hunder := (isUnder_parent hs (inside z hz).1).1
      rw [(inside z hz).2] at hunder
      exact Path.isUnder_trans (ih z hz hy) hunder
    · split at hy
      next hpath => exact hpath ▸ Path.isUnder_refl _
      · cases hy

/-- No row of an array hangs on a row of that array. -/
theorem withinAll_children_eq_nil (h : Proper s x) (hpath : x.path.Canonical) :
    withinAll x.path x.children = [] := by
  cases h with
  | mk uid numbered inside hangs counted below =>
    rw [withinAll_eq, flatMap_eq_nil_iff]
    intro z hz
    refine eq_nil_iff_forall_not_mem.2 fun y hy => ?_
    have hunder := (below z hz).isUnder_of_mem_within hs hy
    obtain ⟨hparent, hne⟩ := isUnder_parent hs (inside z hz).1
    rw [(inside z hz).2] at hparent hne
    exact hne (Path.isUnder_antisymm hpath (hs.canonical _ (inside z hz).1) hunder hparent)

theorem within_self (h : Proper s x) (hpath : x.path.Canonical) : within x.path x = [x] := by
  have hnone := withinAll_children_eq_nil hs h hpath
  obtain ⟨path, cells, children⟩ := x
  change withinAll path children = [] at hnone
  rw [Node.path, within, hnone, if_pos rfl, nil_append]

/-- In a tree, the nodes of an array are the children of the nodes of the
    array around it, and the root if it is one. -/
theorem Proper.within_eq (h : Proper s x) (hn : n ∈ s.nested) :
    within n x = (within (s.parentNestedPath n) x).flatMap (kids n) ++
      if x.path = n then [x] else [] := by
  induction h with
  | @mk path cells children uid numbered inside hangs counted below ih =>
    have hproper : Proper s (.mk path cells children) := .mk uid numbered inside hangs counted below
    rw [within, within, withinAll_eq, flatMap_append]
    congr 1
    rw [flatMap_congr ih]
    by_cases hpath : path = s.parentNestedPath n
    · -- the children are the nodes sought, and none is deeper
      have hcanonical : path.Canonical := by
        rw [hpath]
        exact (isHome_parentNestedPath hs fun hroot =>
          hs.not_root (hroot ▸ hn)).canonical hs
      have hdeeper : withinAll path children = [] := withinAll_children_eq_nil hs hproper hcanonical
      rw [if_pos hpath, ← hpath, hdeeper, flatMap_nil, nil_append, flatMap_singleton,
        kids_eq_flatMap]
      rw [withinAll_eq, flatMap_eq_nil_iff] at hdeeper
      refine flatMap_congr fun y hy => ?_
      rw [hdeeper y hy]
      rfl
    · -- none of the children is a node sought
      rw [if_neg hpath, flatMap_nil, append_nil, withinAll_eq, flatMap_assoc]
      refine flatMap_congr fun y hy => ?_
      have hne : y.path ≠ n := fun heq => hpath (heq ▸ (inside y hy).2.symm)
      rw [if_neg hne, append_nil]

/-- In trees that begin elsewhere, the nodes of an array are the children of
    the nodes of the array around it. -/
theorem withinAll_eq_flatMap {forest : List Node} (hforest : ∀ x ∈ forest, Proper s x)
    (hn : n ∈ s.nested) (hroots : ∀ x ∈ forest, x.path ≠ n) :
    withinAll n forest = (withinAll (s.parentNestedPath n) forest).flatMap (kids n) := by
  rw [withinAll_eq, withinAll_eq, flatMap_assoc]
  refine flatMap_congr fun x hx => ?_
  rw [(hforest x hx).within_eq hs hn, if_neg (hroots x hx), append_nil]

end

section

variable {s : Snowflake} {forest : List Node}

variable {n : Path}

/-- The rows of trees, by array. -/
def rowsOf (forest : List Node) : RowsByPath := fun n => (withinAll n forest).map cells

/-- Trees of documents with numbers that are unique in each array. -/
structure Sprouted (s : Snowflake) (forest : List Node) : Prop where
  proper : ∀ x ∈ forest, Proper s x
  documents : ∀ x ∈ forest, x.path = .root
  unique : ∀ n, ((rowsOf forest n).map Cells.uid).Nodup

section

variable (h : Sprouted s forest)
include h

theorem Sprouted.of_mem {y : Node} (hy : y ∈ withinAll n forest) : Proper s y ∧ y.path = n := by
  rw [withinAll_eq] at hy
  obtain ⟨x, hx, hy⟩ := mem_flatMap.1 hy
  exact ((h.proper x hx).of_mem_within hy).imp_right And.left

theorem Sprouted.known_of_mem {r : Cells} (hr : r ∈ rowsOf forest n) :
    n = .root ∨ n ∈ s.nested := by
  obtain ⟨y, hy, rfl⟩ := mem_map.1 hr
  rw [Node.withinAll_eq] at hy
  obtain ⟨x, hx, hy⟩ := mem_flatMap.1 hy
  rw [← h.documents x hx]
  exact ((h.proper x hx).of_mem_within hy).2.2

section

variable (hs : s.ArraysOrdered)
include hs

theorem Sprouted.withinAll_root : withinAll .root forest = forest := by
  rw [Node.withinAll_eq, flatMap_congr fun x hx => ?_, flatMap_singleton']
  have hself := within_self hs (h.proper x hx)
  rw [h.documents x hx] at hself
  exact hself Path.canonical_root

theorem Sprouted.withinAll_eq (hn : n ∈ s.nested) :
    withinAll n forest = (withinAll (s.parentNestedPath n) forest).flatMap (kids n) :=
  withinAll_eq_flatMap hs h.proper hn fun x hx heq => hs.not_root (h.documents x hx ▸ heq ▸ hn)

theorem Sprouted.filter_hangs (hn : n ∈ s.nested) {x : Node}
    (hx : x ∈ withinAll (s.parentNestedPath n) forest) :
    ((withinAll n forest).filter fun y => y.cells.parent == x.cells.uid) = x.kids n := by
  have hunique := h.unique (s.parentNestedPath n)
  rw [rowsOf, map_map] at hunique
  rw [h.withinAll_eq hs hn]
  refine filter_flatMap_owner hunique hx fun z hz y hy => ?_
  rw [(h.of_mem hz).1.hangs (mem_filter.1 hy).1]
  exact beq_uid (h.of_mem hz).1.numbered (h.of_mem hx).1.numbered

theorem Sprouted.closed : s.Closed (rowsOf forest) where
  numbered := by
    intro n r hr
    obtain ⟨y, hy, rfl⟩ := mem_map.1 hr
    exact (h.of_mem hy).1.numbered
  unique := h.unique
  attached := by
    intro n hn r hr
    obtain ⟨y, hy, rfl⟩ := mem_map.1 hr
    rw [h.withinAll_eq hs hn] at hy
    obtain ⟨x, hx, hy⟩ := mem_flatMap.1 hy
    exact ⟨x.cells, mem_map_of_mem hx, (h.of_mem hx).1.hangs (mem_filter.1 hy).1⟩
  counted := by
    intro n hn p hp
    obtain ⟨x, hx, rfl⟩ := mem_map.1 hp
    obtain ⟨k, horders, hcount⟩ := (h.of_mem hx).1.counted hn (h.of_mem hx).2.symm
    refine ⟨k, ?_, hcount⟩
    rw [rowsOf, filter_map, map_map, ← horders, ← h.filter_hangs hs hn hx]
    rfl

end

end

end

end Node

end Snowbank
