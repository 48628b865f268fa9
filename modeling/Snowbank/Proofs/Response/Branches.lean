import Mathlib.Data.List.Perm.Basic
import Snowbank.Proofs.Response.Result
import Snowbank.Proofs.Response.Stack
import Snowbank.Proofs.Snowflake.Forest

/-!
# Branches of a Statement on Trees

The rows that a statement describes, when what is stored are the rows of trees.
A chain of joined rows is then a way from the root of a tree down to one of its
nodes, and the rows of the result are a listing of the trees in which the rows
on a row stand by table.

The statement goes table by table, and within a table by joins. That both give
the same rows is seen one table at a time: the ways to the nodes of an array are
the ways to the nodes of the array around it, each with one more step.

## Main definitions

* `tree`: The rows of the result for a tree, as a tree.
* `chains`: The ways from the root down to each node.
* `StoredAs`: The rows of trees of documents are what is stored.

## Theorems

* `StoredAs.branches_eq`: The rows of a table are the ways to its nodes.
* `StoredAs.perm_branches`: All rows are a listing of the trees.
-/

namespace Snowbank

open List Snowflake

variable {c : Joined × Node} {n : Path}

/-- Items put together by key are the items. -/
theorem perm_flatMap_filter {α κ : Type} [BEq κ] [LawfulBEq κ] {key : α → κ} {keys : List κ}
    (hkeys : keys.Nodup) {items : List α} (h : ∀ x ∈ items, key x ∈ keys) :
    (keys.flatMap fun k => items.filter fun x => key x == k).Perm items := by
  induction keys generalizing items with
  | nil =>
    rw [eq_nil_iff_forall_not_mem.2 fun x hx => absurd (h x hx) not_mem_nil]
    exact .nil
  | cons k rest ih =>
    obtain ⟨hfirst, hrest⟩ := nodup_cons.1 hkeys
    -- what the other keys have is left when the first key has taken its items
    have hleft : (rest.flatMap fun l => items.filter fun x => key x == l) =
        rest.flatMap fun l => (items.filter fun x => !(key x == k)).filter fun x => key x == l := by
      refine flatMap_congr fun l hl => ?_
      rw [filter_filter]
      refine filter_congr fun x _ => ?_
      by_cases hx : key x = l
      · have hne : (key x == k) = false := beq_eq_false_iff_ne.2 fun heq => hfirst (heq ▸ hx ▸ hl)
        rw [hne, Bool.not_false, Bool.and_true]
      · rw [beq_eq_false_iff_ne.2 hx, Bool.false_and]
    rw [flatMap_cons, hleft]
    have hmem : ∀ x ∈ items.filter fun x => !(key x == k), key x ∈ rest := by
      intro x hx
      obtain ⟨hin, hne⟩ := mem_filter.1 hx
      exact (mem_cons.1 (h x hin)).resolve_left fun heq => by simp [heq] at hne
    exact ((ih hrest hmem).append_left _).trans (filter_append_perm _ _)

/-- Joined rows with one more row, of an array. -/
def Joined.down (s : Snowflake) (j : Joined) (path : Path) (cells : Cells) : Joined :=
  ⟨j.position, j.chain ++ [((Plan.arrays s).idxOf path, cells)]⟩

theorem Joined.last_down (s : Snowflake) (j : Joined) (path : Path) (cells : Cells) :
    (j.down s path cells).last = cells := by
  rw [Joined.last, Joined.down, getLast?_append]
  rfl

namespace Node

open Plan

variable (s : Snowflake)

/-- The row of the result for joined rows that end in a node. -/
def resultOf (c : Joined × Node) : List Json := resultRow s ((arrays s).idxOf c.2.path) c.1

mutual

/-- The rows of the result for a tree, as a tree. The rows on a row stand by table. -/
def tree (j : Joined) : Node → RowTree
  | mk path cells children =>
    .mk (resultRow s ((arrays s).idxOf path) (j.down s path cells))
      ((arrays s).flatMap fun n => treesAt (j.down s path cells) n children)

/-- The trees of the nodes of an array. -/
def treesAt (j : Joined) (n : Path) : List Node → List RowTree
  | [] => []
  | x :: rest => if x.path == n then tree j x :: treesAt j n rest else treesAt j n rest

end

mutual

/-- The ways from the root down to each node, with that node. -/
def chains (j : Joined) : Node → List (Joined × Node)
  | mk path cells children =>
    (j.down s path cells, mk path cells children) :: chainsAll (j.down s path cells) children

/-- The ways to the nodes of several trees. -/
def chainsAll (j : Joined) : List Node → List (Joined × Node)
  | [] => []
  | x :: rest => chains j x ++ chainsAll j rest

end

/-- The rows on a row, by table. -/
def arranged (children : List Node) : List Node :=
  (arrays s).flatMap fun n => children.filter fun y => y.path == n

section

variable {s}

theorem treesAt_eq (j : Joined) (n : Path) (nodes : List Node) :
    treesAt s j n nodes = (nodes.filter fun y => y.path == n).map (tree s j) := by
  induction nodes with
  | nil => rfl
  | cons x rest ih =>
    rw [treesAt, filter_cons, ih]
    split <;> rfl

theorem tree_eq (j : Joined) (path : Path) (cells : Cells) (children : List Node) :
    tree s j (mk path cells children) =
      .mk (resultRow s ((arrays s).idxOf path) (j.down s path cells))
        ((arranged s children).map (tree s (j.down s path cells))) := by
  rw [arranged, map_flatMap]
  refine congrArg _ (flatMap_congr fun n _ => treesAt_eq _ n children)

theorem row_tree (j : Joined) (x : Node) :
    (tree s j x).row = resultRow s ((arrays s).idxOf x.path) (j.down s x.path x.cells) := by
  obtain ⟨path, cells, children⟩ := x
  rw [tree_eq]
  rfl

theorem chainsAll_eq (j : Joined) (nodes : List Node) :
    chainsAll s j nodes = nodes.flatMap (chains s j) := by
  induction nodes with
  | nil => rfl
  | cons x rest ih => rw [chainsAll, ih, flatMap_cons]

variable (hs : s.ArraysOrdered)

include hs

theorem perm_arranged {children : List Node} (h : ∀ y ∈ children, y.path ∈ s.nested) :
    (arranged s children).Perm children :=
  perm_flatMap_filter (nodup_arrays hs) fun y hy => (mem_arrays hs).2 (.inr (h y hy))

theorem perm_listing {x : Node} (h : Proper s x) (j : Joined) :
    (tree s j x).listing.Perm ((chains s j x).map (resultOf s)) := by
  induction h generalizing j with
  | @mk path cells children uid numbered inside hangs counted below ih =>
    rw [tree_eq, RowTree.listing, RowTree.listingAll_eq, flatMap_map, chains, map_cons,
      chainsAll_eq, map_flatMap]
    refine Perm.cons _ ?_
    have harranged := (perm_arranged hs fun y hy => (inside y hy).1).flatMap_right
      fun y => (tree s (j.down s path cells) y).listing
    exact harranged.trans (Perm.flatMap_left _ fun y hy => ih y hy _)

end

section

variable {s}

variable {x : Node}

theorem mem_within_of_mem_chains (h : Proper s x) {j : Joined}
    (hc : c ∈ chains s j x) : c.2 ∈ within c.2.path x ∧ c.1.last = c.2.cells := by
  induction h generalizing j with
  | @mk path cells children uid numbered inside hangs counted below ih =>
    rw [chains, chainsAll_eq] at hc
    rcases mem_cons.1 hc with rfl | hc
    · exact ⟨mem_append_right _ (by rw [Node.path, if_pos rfl]; exact mem_cons_self),
        Joined.last_down s j path cells⟩
    · obtain ⟨y, hy, hc⟩ := mem_flatMap.1 hc
      obtain ⟨hwithin, hlast⟩ := ih y hy hc
      refine ⟨mem_append_left _ ?_, hlast⟩
      rw [withinAll_eq]
      exact mem_flatMap.2 ⟨y, hy, hwithin⟩

/-- The chain ends in a row of an array. -/
def endsIn (n : Path) (c : Joined × Node) : Bool := c.2.path == n

/-- The chains that go on from the end of a chain to a row of an array. -/
def stepTo (s : Snowflake) (n : Path) (c : Joined × Node) : List (Joined × Node) :=
  (c.2.kids n).map fun y => (c.1.down s y.path y.cells, y)

variable (hs : s.ArraysOrdered)

include hs

/-- No chain leads from a row to a row of the same array. -/
theorem filter_chains_eq_nil {y : Node} (h : Proper s x) (hpath : x.path.Canonical)
    (hy : y ∈ x.children) (j : Joined) : ((chains s j y).filter (endsIn x.path)) = [] := by
  have hnone := withinAll_children_eq_nil hs h hpath
  rw [withinAll_eq, flatMap_eq_nil_iff] at hnone
  refine filter_eq_nil_iff.2 fun c hc heq => ?_
  have hproper : Proper s y := by
    cases h with
    | mk _ _ _ _ _ below => exact below y hy
  have hmem := (mem_within_of_mem_chains hproper hc).1
  rw [eq_of_beq heq, hnone y hy] at hmem
  cases hmem

/-- The chain to the root of a tree is the only one that ends in its array. -/
theorem filter_chains_self (h : Proper s x) (hpath : x.path.Canonical) (j : Joined) :
    (chains s j x).filter (endsIn x.path) = [(j.down s x.path x.cells, x)] := by
  obtain ⟨path, cells, children⟩ := x
  have hends : endsIn path (j.down s path cells, mk path cells children) := beq_self_eq_true _
  have hnone : ((chainsAll s (j.down s path cells) children).filter (endsIn path)) = [] := by
    rw [chainsAll_eq, filter_flatMap, flatMap_eq_nil_iff]
    exact fun y hy => filter_chains_eq_nil hs h hpath hy _
  change (chains s j (mk path cells children)).filter (endsIn path) = _
  rw [chains, filter_cons, if_pos hends, hnone]
  rfl

/-- The chains to the nodes of an array are the chains to the nodes of the
    array around it, each with one more step. -/
theorem filter_chains (h : Proper s x) (j : Joined) (hn : n ∈ s.nested) :
    (chains s j x).filter (endsIn n) =
      (if x.path = n then [(j.down s x.path x.cells, x)] else []) ++
        ((chains s j x).filter (endsIn (s.parentNestedPath n))).flatMap (stepTo s n) := by
  induction h generalizing j with
  | @mk path cells children uid numbered inside hangs counted below ih =>
    have hproper : Proper s (.mk path cells children) :=
      .mk uid numbered inside hangs counted below
    -- the chain to this row, and those that go on from it
    have hone : ∀ m, (chains s j (mk path cells children)).filter (endsIn m) =
        (if path = m then [(j.down s path cells, mk path cells children)] else []) ++
          children.flatMap fun y => (chains s (j.down s path cells) y).filter (endsIn m) := by
      intro m
      have hends : endsIn m (j.down s path cells, mk path cells children) ↔ path = m :=
        beq_iff_eq
      rw [chains, chainsAll_eq, filter_cons, filter_flatMap]
      by_cases hm : path = m
      · rw [if_pos hm, if_pos (hends.2 hm)]
        rfl
      · rw [if_neg hm, if_neg fun h => hm (hends.1 h)]
        rfl
    rw [hone, hone, flatMap_append]
    congr 1
    rw [flatMap_congr fun y hy => ih y hy (j.down s path cells)]
    by_cases hpath : path = s.parentNestedPath n
    · -- the steps from this row lead to its children, and there are none from deeper rows
      have hcanonical : path.Canonical := by
        rw [hpath]
        exact (isHome_parentNestedPath hs fun hroot =>
          hs.not_root (hroot ▸ hn)).canonical hs
      have hdeeper : ∀ y ∈ children, (chains s (j.down s path cells) y).filter
          (endsIn (s.parentNestedPath n)) = [] := fun y hy =>
        hpath ▸ filter_chains_eq_nil hs hproper hcanonical hy _
      rw [if_pos hpath, flatMap_singleton, stepTo, kids_eq_flatMap, map_flatMap,
        flatMap_eq_nil_iff.2 hdeeper, flatMap_nil, append_nil]
      refine flatMap_congr fun y hy => ?_
      rw [hdeeper y hy, flatMap_nil, append_nil]
      split <;> rfl
    · rw [if_neg hpath, flatMap_nil, nil_append, flatMap_assoc]
      refine flatMap_congr fun y hy => ?_
      have hne : y.path ≠ n := fun heq => hpath (heq ▸ (inside y hy).2.symm)
      rw [if_neg hne, nil_append]

end

section

/-- The ways from the rows of documents down to each node. -/
def chainsOf (forest : List Node) : List (Joined × Node) :=
  (forest.zipIdx 1).flatMap fun x => chains s ⟨x.2, []⟩ x.1

variable {s} {forest : List Node} {tables : Tables}

/-- The rows of trees of documents are what is stored, and those of the
    documents stand by number. -/
structure StoredAs (s : Snowflake) (tables : Tables) (forest : List Node) : Prop where
  sprouted : Sprouted s forest
  rows : ∀ n ∈ arrays s, tables (s.tableName n) = rowsOf forest n
  numbered : forest.Pairwise fun x y => x.cells.uid.rank ≤ y.cells.uid.rank

variable (hs : s.ArraysOrdered) (h : StoredAs s tables forest)

include hs h

omit hs in
theorem StoredAs.of_mem_chainsOf (hc : c ∈ chainsOf s forest) :
    c.2 ∈ withinAll c.2.path forest ∧ c.1.last = c.2.cells := by
  obtain ⟨x, hx, hc⟩ := mem_flatMap.1 hc
  have hmem : x.1 ∈ forest := fst_mem_of_mem_zipIdx hx
  obtain ⟨hwithin, hlast⟩ := mem_within_of_mem_chains (h.sprouted.proper x.1 hmem) hc
  refine ⟨?_, hlast⟩
  rw [withinAll_eq]
  exact mem_flatMap.2 ⟨x.1, hmem, hwithin⟩

/-- The rows of documents are the first of their chains. -/
theorem StoredAs.selectedRows_eq :
    selectedRows s tables = ((chainsOf s forest).filter (endsIn .root)).map Prod.fst := by
  have hrows : tables s.fact = forest.map cells := by
    have hroot := h.rows .root ((mem_arrays hs).2 (.inl rfl))
    rw [rowsOf, h.sprouted.withinAll_root hs] at hroot
    exact hroot
  have hsorted : (forest.map cells).Pairwise fun a b => decide (a.uid.rank ≤ b.uid.rank) :=
    pairwise_map.2 (h.numbered.imp fun hle => decide_eq_true hle)
  rw [selectedRows, hrows, Ordered.sortBy_of_pairwise hsorted, zipIdx_map, map_map, chainsOf,
    filter_flatMap, map_flatMap, map_eq_flatMap]
  refine flatMap_congr fun x hx => ?_
  have hmem : x.1 ∈ forest := fst_mem_of_mem_zipIdx hx
  have hpath := h.sprouted.documents x.1 hmem
  have hself := filter_chains_self hs (h.sprouted.proper x.1 hmem) (hpath ▸ Path.canonical_root)
    ⟨x.2, []⟩
  rw [hpath] at hself
  rw [hself, map_singleton, Joined.down, idxOf_root hs]
  rfl

theorem StoredAs.joinTable_eq (hn : n ∈ s.nested) : joinTable s tables
        (((chainsOf s forest).filter (endsIn (s.parentNestedPath n))).map Prod.fst)
        ((arrays s).idxOf n) = ((chainsOf s forest).filter (endsIn n)).map Prod.fst := by
  have hn' := (mem_arrays hs).2 (.inr hn)
  have hsteps : (chainsOf s forest).filter (endsIn n) =
      ((chainsOf s forest).filter (endsIn (s.parentNestedPath n))).flatMap (stepTo s n) := by
    rw [chainsOf, filter_flatMap, filter_flatMap, flatMap_assoc]
    refine flatMap_congr fun x hx => ?_
    have hmem : x.1 ∈ forest := fst_mem_of_mem_zipIdx hx
    have hne : x.1.path ≠ n := fun heq =>
      hs.not_root (h.sprouted.documents x.1 hmem ▸ heq ▸ hn)
    rw [filter_chains hs (h.sprouted.proper x.1 hmem) _ hn, if_neg hne, nil_append]
  rw [hsteps, map_flatMap, joinTable, flatMap_map]
  refine flatMap_congr fun c hc => ?_
  obtain ⟨hin, hends⟩ := mem_filter.1 hc
  obtain ⟨hwithin, hlast⟩ := h.of_mem_chainsOf hin
  rw [eq_of_beq hends] at hwithin
  -- the rows that hang on the last row of the chain are its children
  rw [pathAt_idxOf hn', h.rows n hn', rowsOf, hlast, filter_map, map_map, stepTo, map_map,
    ← h.sprouted.filter_hangs hs hn hwithin]
  refine map_congr_left fun y hy => ?_
  have hpath : y.path = n := (h.sprouted.of_mem (mem_filter.1 hy).1).2
  exact congrArg
    (fun m => Joined.mk c.1.position (c.1.chain ++ [((arrays s).idxOf m, y.cells)])) hpath.symm

theorem StoredAs.foldl_joinTable (hn : n ∈ arrays s) {fuel : Nat}
    (hfuel : (arrays s).idxOf n ≤ fuel) :
    (chainOf (layouts s) fuel ((arrays s).idxOf n)).tail.foldl (joinTable s tables)
        (selectedRows s tables) = ((chainsOf s forest).filter (endsIn n)).map Prod.fst := by
  induction fuel generalizing n with
  | zero =>
    have hroot : n = .root := by
      refine ((mem_arrays hs).1 hn).resolve_right fun hnested => ?_
      have := idxOf_parent_lt hs hnested
      omega
    rw [hroot, idxOf_root hs, chainOf_root hs]
    exact h.selectedRows_eq hs
  | succ fuel ih =>
    rcases (mem_arrays hs).1 hn with rfl | hnested
    · rw [idxOf_root hs, chainOf_root hs]
      exact h.selectedRows_eq hs
    · have hparent : s.parentNestedPath n ∈ arrays s := (mem_arrays hs).2
        (isHome_parentNestedPath hs fun hroot => hs.not_root (hroot ▸ hnested)).known
      have hlt := idxOf_parent_lt hs hnested
      rw [chainOf_idxOf hs hnested hfuel, Nat.add_sub_cancel,
        tail_append_of_ne_nil (chainOf_ne_nil _ _ _),
        foldl_append, ih hparent (by omega)]
      exact h.joinTable_eq hs hnested

theorem StoredAs.branches_eq : ((List.range (layouts s).length).flatMap fun index =>
      (branchRows s tables index).map (resultRow s index)) =
      (arrays s).flatMap fun n => ((chainsOf s forest).filter (endsIn n)).map (resultOf s) := by
  rw [length_layouts, ← map_idxOf_arrays hs, flatMap_map]
  refine flatMap_congr fun n hn => ?_
  have hlt := idxOf_lt_length_of_mem hn
  rw [branchRows, h.foldl_joinTable hs hn (by rw [length_layouts]; omega), map_map]
  refine map_congr_left fun c hc => ?_
  rw [Function.comp_apply, resultOf, eq_of_beq (mem_filter.1 hc).2]

theorem StoredAs.perm_branches : ((List.range (layouts s).length).flatMap fun index =>
      (branchRows s tables index).map (resultRow s index)).Perm
      (RowTree.listingAll ((forest.zipIdx 1).map fun x => tree s ⟨x.2, []⟩ x.1)) := by
  have hchains : ((arrays s).flatMap fun n => (chainsOf s forest).filter (endsIn n)).Perm
      (chainsOf s forest) :=
    perm_flatMap_filter (nodup_arrays hs) fun c hc => (mem_arrays hs).2 <|
      h.sprouted.known_of_mem (mem_map_of_mem (h.of_mem_chainsOf hc).1)
  rw [h.branches_eq hs, RowTree.listingAll_eq, flatMap_map, ← map_flatMap]
  refine (hchains.map _).trans ?_
  rw [chainsOf, map_flatMap]
  exact Perm.flatMap_left _ fun x hx =>
    (perm_listing hs (h.sprouted.proper x.1 (fst_mem_of_mem_zipIdx hx)) _).symm

end

end Node

end Snowbank
