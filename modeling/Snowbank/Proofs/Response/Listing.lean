import Mathlib.Data.List.Lex
import Snowbank.Proofs.Response.Branches

/-!
# The Order of a Result

The rows of a result are sorted by the place of the document and then level by
level, where a row that ends before a level comes first. Read as a list of
numbers this is the order of dictionaries: a row comes before those beneath it,
and these stand table by table, in the order of the array. So a listing of trees
is sorted, and as no two rows have one place there is no other order.

## Main definitions

* `Precedes`: A place comes before another one.
* `trees`: The rows of the result for trees of documents, as trees.

## Theorems

* `StoredAs.documentRows_eq`: The result is a listing of the trees.
* `fits_tree`: The rows of a tree fit the layout.
-/

namespace Snowbank

open List RowTree Bool Ordered Option
open DocumentLayout (cell table? tableOf)

theorem Json.nat?_nat (n : Nat) : (Json.nat n).nat? = some n := rfl

theorem Json.rank_nat (n : Nat) : (Json.nat n).rank = n + 1 := rfl

theorem Json.rank_int_le {a b : Int} (h : a ≤ b) : (Json.int a).rank ≤ (Json.int b).rank := by
  have hrank : ∀ n : Int, (Json.int n).rank = if 0 ≤ n then n.toNat + 1 else 0 := by
    intro n
    by_cases hn : 0 ≤ n <;> simp [Json.rank, Json.nat?, Json.int, Number.toNat?, hn]
  rw [hrank, hrank]
  split <;> split <;> omega

/-- A place comes before another one. -/
abbrev Precedes (a b : List Nat) : Prop := Lex (· < ·) a b

theorem Precedes.placeLe {a b : List Nat} (h : Precedes a b) :
    placeLe a b ∧ placeLe b a = false := by
  induction h with
  | nil => exact ⟨rfl, rfl⟩
  | cons _ ih => simp [Snowbank.placeLe, ih]
  | rel hlt =>
    have hne := Nat.ne_of_gt hlt
    have hnot := Nat.not_lt_of_gt hlt
    simp [Snowbank.placeLe, hlt, hne, hnot]

theorem placeLe_total (a b : List Nat) (h : placeLe a b = false) : placeLe b a := by
  induction a generalizing b with
  | nil => cases h
  | cons x xs ih =>
    cases b with
    | nil => rfl
    | cons y ys =>
      simp only [placeLe, or_eq_false_iff, decide_eq_false_iff_not, Nat.not_lt] at h ⊢
      by_cases hxy : x = y
      · subst hxy
        simp only [beq_self_eq_true, Bool.true_and] at h ⊢
        rw [ih ys h.2, Bool.or_true]
      · rw [decide_eq_true (by omega), Bool.true_or]

theorem placeLe_trans (a b c : List Nat) (hab : placeLe a b) (hbc : placeLe b c) : placeLe a c := by
  induction a generalizing b c with
  | nil => rfl
  | cons x xs ih =>
    cases b with
    | nil => cases hab
    | cons y ys =>
      cases c with
      | nil => cases hbc
      | cons z zs =>
        simp only [placeLe, or_eq_true, decide_eq_true_eq, and_eq_true,
          beq_iff_eq] at hab hbc ⊢
        rcases hab with hlt | ⟨rfl, hab⟩
        · exact .inl (by omega)
        · exact hbc.imp id fun h => ⟨h.1, ih ys zs hab h.2⟩

/-- A key, with zeros up to a length. -/
def padded (length : Nat) (key : List Nat) : List Nat :=
  key ++ List.replicate (length - key.length) 0

/-- Zeros at the end keep the order of keys without zeros. -/
theorem padded_precedes {a b : List Nat} (h : Precedes a b) (hb : ∀ e ∈ b, e ≠ 0) {length : Nat}
    (hlength : b.length ≤ length) : Precedes (padded length a) (padded length b) := by
  induction h generalizing length with
  | @nil x rest =>
    cases length with
    | zero => exact absurd hlength (by simp)
    | succ length => exact Lex.rel (Nat.pos_of_ne_zero (hb x mem_cons_self))
  | @cons x as bs _ ih =>
    cases length with
    | zero => exact absurd hlength (by simp)
    | succ length =>
      have hrest := ih (fun e he => hb e (.tail _ he)) (Nat.le_of_succ_le_succ hlength)
      simp only [padded, length_cons, Nat.add_sub_add_right, cons_append] at hrest ⊢
      exact Lex.cons hrest
  | rel hlt => exact Lex.rel hlt

theorem precedes_of_initial {a key : List Nat} {x : Nat} {rest : List Nat}
    (h : a ++ x :: rest <+: key) : Precedes a key := by
  obtain ⟨more, rfl⟩ := h
  have hlt := Lex.append_left (· < ·) (Lex.nil (a := x) (l := rest ++ more)) a
  rw [append_nil] at hlt
  rw [append_assoc]
  exact hlt

/-- Keys that part at a table, or at a position in the array. -/
theorem precedes_of_parting {a key other : List Nat} {x y x' y' : Nat}
    (h : x < x' ∨ x = x' ∧ y < y')
    (hkey : a ++ [x, y] <+: key) (hother : a ++ [x', y'] <+: other) : Precedes key other := by
  obtain ⟨more, rfl⟩ := hkey
  obtain ⟨more', rfl⟩ := hother
  rw [append_assoc, append_assoc]
  refine Lex.append_left (· < ·) ?_ a
  rcases h with h | ⟨rfl, h⟩
  · exact Lex.rel h
  · exact Lex.cons (Lex.rel h)

/-- The place of joined rows, as far down as they go. -/
def Joined.key (j : Joined) : List Nat :=
  (j.position + 1) :: j.chain.tail.flatMap fun e => [e.1 + 1, e.2.order.rank]

theorem Joined.key_down (s : Snowflake) {j : Joined} (h : j.chain ≠ []) (path : Path)
    (cells : Cells) :
    (j.down s path cells).key = j.key ++ [(Plan.arrays s).idxOf path + 1, cells.order.rank] := by
  unfold Joined.down Joined.key
  rw [tail_append_of_ne_nil h, flatMap_append]
  rfl

/-- The places at each depth, where there are none anymore as zeros. -/
theorem ranks_places (chain : List (Nat × Cells)) {depth : Nat} (h : chain.length ≤ depth) :
    ((List.range depth).flatMap fun d =>
      match chain[d]? with
      | some (index, r) => [Json.nat index, r.order]
      | none => [Json.null, Json.null]).map Json.rank =
      (chain.flatMap fun e => [e.1 + 1, e.2.order.rank]) ++
        List.replicate (2 * (depth - chain.length)) 0 := by
  induction chain generalizing depth with
  | nil =>
    induction depth with
    | zero => rfl
    | succ depth ih =>
      rw [range_succ, flatMap_append, map_append, ih (Nat.zero_le _)]
      simp [Nat.mul_succ, replicate_add, Json.rank, Json.nat?]
  | cons e rest ih =>
    cases depth with
    | zero => exact absurd h (by simp)
    | succ depth =>
      rw [range_succ_eq_map, flatMap_cons, flatMap_map, map_append, flatMap_cons, append_assoc]
      simp only [getElem?_cons_succ, getElem?_cons_zero, length_cons, Nat.add_sub_add_right]
      rw [ih (Nat.le_of_succ_le_succ h)]
      rfl

namespace Plan

/-- A row of the result is at a place. -/
structure Keyed (s : Snowflake) (row : List Json) (key : List Nat) : Prop where
  eq : rowKey s row = padded (2 * maxDepth s .root + 1) key
  length : key.length ≤ 2 * maxDepth s .root + 1
  pos : ∀ e ∈ key, e ≠ 0

theorem Keyed.precedes {s : Snowflake} {row other : List Json} {key key' : List Nat}
    (h : Keyed s row key) (h' : Keyed s other key') (hlt : Precedes key key') :
    Precedes (rowKey s row) (rowKey s other) := by
  rw [h.eq, h'.eq]
  exact padded_precedes hlt h'.pos h'.length

theorem keyed_resultRow {s : Snowflake} (index : Nat) {j : Joined}
    (hlength : j.chain.length ≤ maxDepth s .root + 1) (hpos : ∀ e ∈ j.key, e ≠ 0) :
    Keyed s (resultRow s index j) j.key := by
  have htail : j.chain.tail.length ≤ maxDepth s .root := by
    rw [length_tail]
    omega
  have hkey : j.key.length = 2 * j.chain.tail.length + 1 := by
    rw [Joined.key, length_cons, length_flatMap]
    simp [Nat.mul_comm]
  have hplaces : (List.range (maxDepth s .root)).flatMap (placeAt j) =
      (List.range (maxDepth s .root)).flatMap fun d =>
        match j.chain.tail[d]? with
        | some (index, r) => [Json.nat index, r.order]
        | none => [Json.null, Json.null] := by
    refine flatMap_congr fun d _ => ?_
    rw [getElem?_tail]
    rfl
  have htake : ((resultRow s index j).drop 3).take (2 * maxDepth s .root + 1) =
      .nat j.position :: (List.range (maxDepth s .root)).flatMap (placeAt j) := by
    change (.nat j.position :: ((List.range (maxDepth s .root)).flatMap (placeAt j) ++
      cellsAt s index j.last)).take _ = _
    rw [take_succ_cons, take_left' (length_places j _)]
  refine ⟨?_, by omega, hpos⟩
  rw [rowKey, htake, map_cons, hplaces, ranks_places _ htail, padded, hkey, Joined.key,
    Json.rank_nat, cons_append]
  congr 3
  omega

end Plan

namespace Node

open Plan

section

variable {s : Snowflake}

theorem exists_orders {x : Node} (h : Proper s x) (n : Path) :
    ∃ k : Nat, (x.kids n).map (fun y => y.cells.order) = (List.range k).map Json.nat := by
  cases hkids : x.kids n with
  | nil => exact ⟨0, rfl⟩
  | cons y rest =>
    have hy : y ∈ x.kids n := hkids ▸ mem_cons_self
    obtain ⟨hmem, hpath⟩ := mem_filter.1 hy
    cases h with
    | mk uid numbered inside hangs counted below =>
      obtain ⟨hnested, hparent⟩ := inside y hmem
      rw [eq_of_beq hpath] at hnested hparent
      obtain ⟨k, horders, _⟩ := counted n hnested hparent
      exact ⟨k, hkids ▸ horders⟩

theorem sorted_kids {x : Node} (h : Proper s x) (n : Path) :
    (x.kids n).Pairwise fun y z => y.cells.order.rank < z.cells.order.rank := by
  obtain ⟨k, horders⟩ := exists_orders h n
  have hranks : ((x.kids n).map fun y => y.cells.order).Pairwise fun a b => a.rank < b.rank := by
    rw [horders]
    exact pairwise_map.2 (pairwise_lt_range.imp fun hlt => Nat.succ_lt_succ hlt)
  exact (pairwise_map (R := fun a b : Json => a.rank < b.rank)).1 hranks

theorem rank_order_ne_zero {x y : Node} (h : Proper s x) (hy : y ∈ x.children) :
    y.cells.order.rank ≠ 0 := by
  obtain ⟨k, horders⟩ := exists_orders h y.path
  have hkid : y ∈ x.kids y.path := mem_filter.2 ⟨hy, beq_self_eq_true _⟩
  have hmem : y.cells.order ∈ (List.range k).map Json.nat :=
    horders ▸ mem_map_of_mem (f := fun y : Node => y.cells.order) hkid
  obtain ⟨i, _, hi⟩ := mem_map.1 hmem
  rw [← hi, Json.rank_nat]
  exact Nat.succ_ne_zero i

variable (hs : s.ArraysOrdered)

include hs

/-- The rows on a row stand by table, and in one table in the order of the array. -/
theorem sorted_arranged {x : Node} (h : Proper s x) : (arranged s x.children).Pairwise fun y z =>
      (arrays s).idxOf y.path < (arrays s).idxOf z.path ∨
        (arrays s).idxOf y.path = (arrays s).idxOf z.path ∧
          y.cells.order.rank < z.cells.order.rank := by
  refine pairwise_flatMap.2 ⟨fun n _ => ?_, ?_⟩
  · refine (sorted_kids h n).imp_of_mem fun {y z} hy hz hlt => .inr ⟨?_, hlt⟩
    rw [eq_of_beq (mem_filter.1 hy).2, eq_of_beq (mem_filter.1 hz).2]
  · have hindices : (arrays s).Pairwise fun m n => (arrays s).idxOf m < (arrays s).idxOf n := by
      refine pairwise_map.1 ?_
      rw [map_idxOf_arrays hs]
      exact pairwise_lt_range
    refine hindices.imp fun {m n} hlt y hy z hz => .inl ?_
    rw [eq_of_beq (mem_filter.1 hy).2, eq_of_beq (mem_filter.1 hz).2]
    exact hlt

/-- The rows of a tree are listed in order, and are at places that go on from
    the place of its root. -/
theorem sorted_listing {x : Node} (h : Proper s x) (hknown : x.path ∈ arrays s) {j : Joined}
    (hdepth : j.chain.length + 1 = (s.nestedPathList x.path).length)
    (hpos : ∀ e ∈ (j.down s x.path x.cells).key, e ≠ 0) :
    (tree s j x).listing.Pairwise (fun a b => Precedes (rowKey s a) (rowKey s b)) ∧
      ∀ row ∈ (tree s j x).listing, ∃ key, Keyed s row key ∧
      (j.down s x.path x.cells).key <+: key := by
  induction h generalizing j with
  | @mk path cells children uid numbered inside hangs counted below ih =>
    have hproper : Proper s (.mk path cells children) :=
      .mk uid numbered inside hangs counted below
    have hchain : (j.down s path cells).chain.length = j.chain.length + 1 := length_append
    have hne : (j.down s path cells).chain ≠ [] := by
      intro hnil
      rw [hnil] at hchain
      exact absurd hchain (by simp)
    have hmax := length_nestedPathList_le hs hknown
    have hrow : Keyed s (resultRow s ((arrays s).idxOf path) (j.down s path cells))
        (j.down s path cells).key := keyed_resultRow _ (by rw [hchain, hdepth]; exact hmax) hpos
    have hmem : ∀ y ∈ arranged s children, y ∈ children := fun y hy =>
      (perm_arranged hs fun z hz => (inside z hz).1).mem_iff.1 hy
    -- the place of a child goes on from that of its row
    have hkey : ∀ y : Node, ((j.down s path cells).down s y.path y.cells).key =
        (j.down s path cells).key ++ [(arrays s).idxOf y.path + 1, y.cells.order.rank] := fun y =>
      Joined.key_down s hne y.path y.cells
    have hchild : ∀ y ∈ arranged s children,
        (tree s (j.down s path cells) y).listing.Pairwise
          (fun a b => Precedes (rowKey s a) (rowKey s b)) ∧
          ∀ row ∈ (tree s (j.down s path cells) y).listing, ∃ key, Keyed s row key ∧
            (j.down s path cells).key ++ [(arrays s).idxOf y.path + 1, y.cells.order.rank] <+:
              key := by
      intro y hy
      obtain ⟨hnested, hparent⟩ := inside y (hmem y hy)
      rw [← hkey y]
      refine ih y (hmem y hy) ((mem_arrays hs).2 (Or.inr hnested)) ?_ fun e he => ?_
      · rw [hchain, hdepth, length_nestedPathList hs hnested, hparent]
        rfl
      · rw [hkey y] at he
        rcases mem_append.1 he with he | he
        · exact hpos e he
        · rcases mem_cons.1 he with rfl | he
          · exact Nat.succ_ne_zero _
          · rw [mem_singleton.1 he]
            exact rank_order_ne_zero hproper (hmem y hy)
    rw [tree_eq, listing, listingAll_eq, flatMap_map]
    refine ⟨pairwise_cons.2 ⟨fun row hin => ?_, pairwise_flatMap.2
      ⟨fun y hy => (hchild y hy).1, ?_⟩⟩, fun row hin => ?_⟩
    · obtain ⟨y, hy, hin⟩ := mem_flatMap.1 hin
      obtain ⟨key, hkeyed, hprefix⟩ := (hchild y hy).2 row hin
      exact hrow.precedes hkeyed (precedes_of_initial hprefix)
    · refine (sorted_arranged hs hproper).imp_of_mem fun {y z} hy hz hlt a ha b hb => ?_
      obtain ⟨key, hkeyed, hprefix⟩ := (hchild y hy).2 a ha
      obtain ⟨key', hkeyed', hprefix'⟩ := (hchild z hz).2 b hb
      refine hkeyed.precedes hkeyed' (precedes_of_parting ?_ hprefix hprefix')
      exact hlt.imp Nat.succ_lt_succ fun h => ⟨congrArg _ h.1, h.2⟩
    · rcases mem_cons.1 hin with rfl | hin
      · exact ⟨_, hrow, prefix_rfl⟩
      · obtain ⟨y, hy, hin⟩ := mem_flatMap.1 hin
        obtain ⟨key, hkeyed, hprefix⟩ := (hchild y hy).2 row hin
        exact ⟨key, hkeyed, (prefix_append _ _).trans hprefix⟩

end

section

variable {s : Snowflake}

/-- The rows of the result for trees of documents, as trees. -/
def trees (s : Snowflake) (forest : List Node) : List RowTree :=
  (forest.zipIdx 1).map fun x => tree s ⟨x.2, []⟩ x.1

variable {forest : List Node} {tables : Tables} (hs : s.ArraysOrdered)
  (h : StoredAs s tables forest)

include hs h

theorem StoredAs.sorted_trees :
    (listingAll (trees s forest)).Pairwise fun a b => Precedes (rowKey s a) (rowKey s b) := by
  have hkey : ∀ x : Node × Nat, ((⟨x.2, []⟩ : Joined).down s x.1.path x.1.cells).key = [x.2 + 1] :=
    fun _ => rfl
  have htree : ∀ x ∈ forest.zipIdx 1,
      (tree s ⟨x.2, []⟩ x.1).listing.Pairwise (fun a b => Precedes (rowKey s a) (rowKey s b)) ∧
        ∀ row ∈ (tree s ⟨x.2, []⟩ x.1).listing, ∃ key, Keyed s row key ∧ [x.2 + 1] <+: key := by
    intro x hx
    have hmem : x.1 ∈ forest := fst_mem_of_mem_zipIdx hx
    have hpath := h.sprouted.documents x.1 hmem
    rw [← hkey x]
    refine sorted_listing hs (h.sprouted.proper x.1 hmem) ?_ ?_ fun e he => ?_
    · exact (mem_arrays hs).2 (Or.inl hpath)
    · rw [hpath, nestedPathList_root hs]
      rfl
    · rw [hkey, mem_singleton] at he
      rw [he]
      exact Nat.succ_ne_zero _
  -- two documents are told apart by the first part of their keys
  have hpositions : (forest.zipIdx 1).Pairwise fun x y => x.2 < y.2 := by
    refine pairwise_map.1 ?_
    rw [zipIdx_map_snd]
    exact pairwise_lt_range'
  rw [listingAll_eq, trees, flatMap_map]
  refine pairwise_flatMap.2 ⟨fun x hx => (htree x hx).1, ?_⟩
  refine hpositions.imp_of_mem fun {x y} hx hy hlt a ha b hb => ?_
  obtain ⟨key, hkeyed, ⟨rest, rfl⟩⟩ := (htree x hx).2 a ha
  obtain ⟨key', hkeyed', ⟨rest', rfl⟩⟩ := (htree y hy).2 b hb
  exact hkeyed.precedes hkeyed' (Lex.rel (Nat.succ_lt_succ hlt))

theorem StoredAs.documentRows_eq : documentRows s tables = listingAll (trees s forest) := by
  have hsorted := h.sorted_trees hs
  have hperm : (documentRows s tables).Perm (listingAll (trees s forest)) :=
    (perm_sortBy _).trans (h.perm_branches hs)
  have hresult := pairwise_sortBy (fun a b => placeLe (rowKey s a) (rowKey s b))
    (fun a b => placeLe_total _ _) (fun a b c => placeLe_trans _ _ _)
    ((List.range (layouts s).length).flatMap fun index =>
      (branchRows s tables index).map (resultRow s index))
  refine hperm.eq_of_pairwise (fun a b ha hb hab hba => ?_) hresult
    (hsorted.imp fun hlt => hlt.placeLe.1)
  -- of two rows of the listing one is at the earlier place
  obtain ⟨m, hm, rfl⟩ := getElem_of_mem (hperm.mem_iff.1 ha)
  obtain ⟨n, hn, rfl⟩ := getElem_of_mem hb
  rcases Nat.lt_trichotomy m n with hlt | rfl | hlt
  · have hfalse := (pairwise_iff_getElem.1 hsorted m n hm hn hlt).placeLe.2
    exact Bool.noConfusion (hba.symm.trans hfalse)
  · rfl
  · have hfalse := (pairwise_iff_getElem.1 hsorted n m hn hm hlt).placeLe.2
    exact Bool.noConfusion (hab.symm.trans hfalse)

end

section

variable {s : Snowflake}

theorem index_resultRow (i : Nat) (j : Joined) : index (layout s .root) (resultRow s i j) = i := by
  change ((Json.nat i).nat?).getD 0 = i
  rw [Json.nat?_nat, getD_some]

theorem tableOf_resultRow {n : Path} (hn : n ∈ arrays s) (j : Joined) :
    (layout s .root).tableOf (resultRow s ((arrays s).idxOf n) j) =
      .ok (index (layout s .root) (resultRow s ((arrays s).idxOf n) j),
        tableAt s .root (pullOf s n) n) := by
  rw [index_resultRow]
  unfold tableOf
  have hkind : cell (resultRow s ((arrays s).idxOf n) j) (layout s .root).kind =
      .nat ((arrays s).idxOf n) := rfl
  dsimp only
  rw [hkind, Json.nat?_nat, bind_some, table?, table?_layout hn]
  rfl

variable (hs : s.ArraysOrdered)

include hs

/-- The row of the result for a row of an array hangs on that for the row that it hangs on. -/
theorem pid_resultRow {n : Path} (hn : n ∈ s.nested) (j : Joined) :
    cell (resultRow s ((arrays s).idxOf n) j) (layout s .root).pid = j.last.parent := by
  have hlt := idxOf_parent_lt hs hn
  change (if (arrays s).idxOf n == 0 then Json.null else j.last.parent) = _
  rw [if_neg fun h => absurd (eq_of_beq h) (by omega)]

theorem fits_tree {x : Node} (h : Proper s x) (hknown : x.path ∈ arrays s) (j : Joined) :
    RowTree.Fits (layout s Path.root) (tree s j x) := by
  induction h generalizing j with
  | @mk path cells children uid numbered inside hangs counted below ih =>
    have huid : cell (resultRow s ((arrays s).idxOf path) (j.down s path cells))
        (layout s Path.root).uid = .int uid :=
      (congrArg Cells.uid (Joined.last_down s j path cells)).trans numbered
    have hmem : ∀ y ∈ arranged s children, y ∈ children := fun y hy =>
      (perm_arranged hs fun z hz => (inside z hz).1).mem_iff.1 hy
    rw [tree_eq]
    refine .mk _ (tableOf_resultRow hknown _) ?_ (fun t ht => ?_) fun t ht => ?_
    · rw [huid, Json.int_beq_int, beq_self_eq_true]
    · obtain ⟨y, hy, rfl⟩ := mem_map.1 ht
      obtain ⟨hnested, hparent⟩ := inside y (hmem y hy)
      rw [row_tree]
      refine ⟨_, tableOf_resultRow ((mem_arrays hs).2 (Or.inr hnested)) _, ?_, ?_, ?_⟩
      · rw [(parent_tableAt hs hnested _).1, hparent, index_resultRow]
      · rw [index_resultRow, index_resultRow, ← hparent]
        exact idxOf_parent_lt hs hnested
      · rw [pid_resultRow hs hnested, Joined.last_down, huid]
        exact hangs y (hmem y hy)
    · obtain ⟨y, hy, rfl⟩ := mem_map.1 ht
      exact ih y (hmem y hy) ((mem_arrays hs).2 (.inr (inside y (hmem y hy)).1)) _

end

end Node

end Snowbank
