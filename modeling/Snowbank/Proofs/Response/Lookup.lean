import Snowbank.Proofs.Response.RoundTrip
import Snowbank.Proofs.Snowflake.Leaves

/-!
# Looking Up What Is Stored

A path can be followed in a document, into each item where it leads through an
array. It can also be followed in the tables: its columns are in the table of
one array, and the rows of that array beneath a document are found level by
level, each level in order. Both ways come to the same scalars.

The document is compared with its entries first. There a key that the path does
not go on with leads to nothing, and an array leads to what its items lead to,
so the two walks stay together.

## Main definitions

* `reach`: The scalars that keys lead to.
* `found`: The values at a path among entries.
* `valuesBeneath`: The values of a path in the rows of a document.

## Theorems

* `lookup_stored`: What is looked up in a document is in its rows.
-/

namespace Snowbank

open List Entry Snowbank.Path Snowflake

variable {base : Cells} {uid : Int} {item value : Json} {entries : List Entry}

namespace Json

/-- The scalars among what was looked up: the value, or the items that are. -/
def scalars (v : Json) : List Json := v.asList.filter isScalar

/-- The scalars that keys lead to. -/
def reach : List String → Json → List Json
  | [], v => v.scalars
  | key :: rest, v => (follow key v).flatMap (reach rest)

theorem reach_arr_cons (keys : List String) (h : item.isArr = false)
    (rest : List Json) :
    reach keys (.arr (item :: rest)) = reach keys item ++ reach keys (.arr rest) := by
  cases keys with
  | nil => cases item <;> first | rfl | cases h
  | cons key keys =>
    have hfollow :
        follow key (.arr (item :: rest)) = follow key item ++ follow key (.arr rest) := by
      cases item with
      | arr => cases h
      | obj fields =>
        have hget : get? key (.obj fields) = Ordered.get? key fields := rfl
        rw [follow, follow, filterMap_cons, hget]
        cases Ordered.get? key fields <;> rfl
      | _ => rfl
    rw [reach, reach, reach, hfollow, flatMap_append]

theorem scalars_result (keys : List String) (r : Reached)
    (h : r.fanned = false → r.values.length ≤ 1) :
    (keys.foldl Reached.step r).result.scalars = r.values.flatMap (reach keys) := by
  -- as long as no array was passed there is one value at most, so following keys
  -- and then flattening is following them from each value
  induction keys generalizing r with
  | nil =>
    change r.result.scalars = r.values.flatMap scalars
    rw [Reached.result]
    split
    · change r.present.filter isScalar = _
      rw [Reached.present, filter_flatMap]
      refine flatMap_congr fun v _ => ?_
      rw [filter_filter]
      refine filter_congr fun w _ => ?_
      cases w <;> rfl
    next hfanned =>
      rw [Bool.or_eq_true, not_or, Bool.not_eq_true, Bool.not_eq_true] at hfanned
      have hle := h hfanned.1
      rcases r with ⟨fanned, _ | ⟨v, _ | ⟨w, more⟩⟩⟩
      · rfl
      · cases v <;> first | rfl | exact Bool.noConfusion hfanned.2
      · exact absurd hle (by simp)
  | cons key rest ih =>
    rw [foldl_cons, ih, Reached.step, flatMap_assoc]
    · rfl
    · intro hfanned
      rw [Reached.step, Bool.or_eq_false_iff] at hfanned
      have hle := h hfanned.1
      rcases r with ⟨fanned, _ | ⟨v, _ | ⟨w, more⟩⟩⟩
      · exact Nat.zero_le _
      · cases v with
        | arr => exact Bool.noConfusion hfanned.2
        | obj fields =>
          rw [Reached.step, flatMap_singleton, follow]
          cases Ordered.get? key fields <;> simp
        | _ => exact Nat.zero_le _
      · exact absurd hle (by simp)

theorem scalars_lookup (doc : Json) {keys : List String} (hne : keys ≠ [])
    (hclean : ∀ key ∈ keys, Path.CleanKey key) :
    (doc.lookup (ofKeys keys)).scalars = doc.reach keys := by
  have hkeys := keys_ofKeys hclean
  have hroot : (ofKeys keys == .root) = false := by
    refine beq_eq_false_iff_ne.2 fun heq => hne ?_
    rw [← hkeys, heq]
    rfl
  rw [lookup, hroot, hkeys]
  exact (scalars_result keys ⟨false, [doc]⟩ fun _ => Nat.le_refl 1).trans (flatMap_singleton _ _)

end Json

namespace Entry

open Json

/-- The value of a cell at a path. -/
def valueAt (p : Path) : Entry → List Json
  | cell path _ value => if path = p then [value] else []
  | rows _ _ => []

mutual

/-- The values at a path in the rows of arrays. -/
def foundRows (p : Path) : List Entry → List Json
  | [] => []
  | cell _ _ _ :: rest => foundRows p rest
  | rows _ items :: rest => foundItems p items ++ foundRows p rest

/-- The values at a path in the rows of an array. -/
def foundItems (p : Path) : List (List Entry) → List Json
  | [] => []
  | item :: rest => foundRows p item ++ item.flatMap (valueAt p) ++ foundItems p rest

end

/-- The values at a path among entries, those in rows first. -/
def found (p : Path) (entries : List Entry) : List Json :=
  foundRows p entries ++ entries.flatMap (valueAt p)

/-- The values that a path leads to, in a value at a path above. -/
def sought (p path : Path) (value : Json) : List Json :=
  if p.isUnder path then value.reach (p.keys.drop path.depth) else []

section

variable {p path : Path}

theorem foundRows_append (as bs : List Entry) :
    foundRows p (as ++ bs) = foundRows p as ++ foundRows p bs := by
  induction as with
  | nil => rw [nil_append, foundRows, nil_append]
  | cons e rest ih => cases e <;> simp [foundRows, ih]

theorem found_rows (items : List (List Entry)) :
    found p [rows path items] = foundItems p items := by
  simp [found, foundRows, valueAt]

theorem foundItems_singleton (item : List Entry) : foundItems p [item] = found p item := by
  rw [foundItems, foundItems, append_nil, found]

theorem found_append {as bs : List Entry} {values : List Json}
    (h : found p as = [] ∧ found p bs = values ∨ found p as = values ∧ found p bs = []) :
    found p (as ++ bs) = values := by
  unfold found at h ⊢
  rw [append_eq_nil_iff, append_eq_nil_iff] at h
  rw [foundRows_append, flatMap_append]
  rcases h with ⟨⟨hrows, hcells⟩, rfl⟩ | ⟨rfl, hrows, hcells⟩ <;> simp [hrows, hcells]

theorem found_nil : found p [] = [] := by
  rw [found, foundRows]
  rfl

theorem sought_empty : sought p path .null = [] ∧ sought p path (.arr []) = [] ∧
    sought p path (.obj []) = [] := by
  unfold sought
  cases p.keys.drop path.depth <;> exact ⟨ite_self _, ite_self _, ite_self _⟩

theorem sought_arr_cons (h : item.isArr = false) (rest : List Json) :
    sought p path (.arr (item :: rest)) = sought p path item ++ sought p path (.arr rest) := by
  unfold sought
  split
  · exact reach_arr_cons _ h rest
  · rfl

theorem sought_scalar (hp : p.Canonical) (hpath : path.Canonical)
    (h : value.isScalar) : sought p path value = if path = p then [value] else [] := by
  have hreach : ∀ keys, reach keys value = if keys = [] then [value] else [] := by
    intro keys
    cases keys <;> cases value <;> first | rfl | cases h
  rw [sought, hreach]
  by_cases heq : path = p
  · rw [heq, if_pos (isUnder_refl p), if_pos rfl, if_pos (drop_depth p)]
  · rw [if_neg heq, ite_eq_right_iff]
    intro hunder
    refine if_neg fun hnil => heq (eq_of_keys_eq hpath hp ?_)
    exact (isUnder_iff.1 hunder).eq_of_length
      (Nat.le_antisymm (isUnder_iff.1 hunder).length_le (drop_eq_nil_iff.1 hnil))

theorem sought_obj_cons (hpath : path.Clean) {key : String} (hkey : Path.CleanKey key)
    (value : Json)
    {rest : Fields} (hfresh : Ordered.get? key rest = none) :
    sought p (path.append (escapeKey key)) value = [] ∧
        sought p path (.obj rest) = sought p path (.obj ((key, value) :: rest)) ∨
      sought p (path.append (escapeKey key)) value =
          sought p path (.obj ((key, value) :: rest)) ∧ sought p path (.obj rest) = [] := by
  have hchild := hpath.keys_child hkey
  unfold sought
  simp only [isUnder_iff, Path.depth, hchild]
  by_cases hunder : path.keys <+: p.keys
  · obtain ⟨keys, hkeys⟩ := hunder
    simp only [← hkeys, prefix_append, if_true, drop_left, prefix_append_right_inj]
    cases keys with
    | nil => exact Or.inl ⟨if_neg (by simp), rfl⟩
    | cons k ks =>
      by_cases hk : key = k
      · subst hk
        refine Or.inr ⟨?_, ?_⟩
        · rw [if_pos (by simp), length_append, ← drop_drop, drop_left]
          simp [reach, follow, Ordered.get?]
        · rw [reach, follow, hfresh]
          rfl
      · refine Or.inl ⟨if_neg (by simpa using hk), ?_⟩
        rw [reach, reach, follow, follow, Ordered.get?]
        split
        next heq => exact absurd (Std.LawfulEqOrd.eq_of_compare heq).symm hk
        · rfl
  · refine .inl ⟨if_neg fun h => hunder ((prefix_append _ _).trans h), ?_⟩
    rw [if_neg hunder, if_neg hunder]

end

section

variable {isNested : Path → Bool} {p : Path}

theorem found_scalar (hp : p.Canonical) {home path : Path} (hpath : path.Canonical)
    (h : value.isScalar) : found p (ofJson isNested home path value) = sought p path value := by
  have hcell : found p (scalar path value) = sought p path value := by
    rw [sought_scalar hp hpath h, found, scalar, foundRows, foundRows, flatMap_singleton, valueAt,
      nil_append]
  cases value with
  | null | arr | obj => cases h
  | _ =>
    simp only [ofJson]
    split
    · rw [found_rows, foundItems_singleton, hcell]
    · exact hcell

mutual

/-- The values at a path among the entries of a document are those that the
    path leads to, if the arrays of the document have tables. -/
theorem found_ofJson (hp : p.Canonical) {home path : Path} (hpath : path.Clean)
    (hunder : path.isUnder home) :
    (value : Json) → (path = home → value.isArr = false) → value.Tidy → value.flat →
      (∀ q ∈ arrays path value, isNested q) →
      found p (ofJson isNested home path value) = sought p path value
  | .null, _, _, _, _ => by
    rw [ofJson, sought_empty.1, found_nil]
  | .bool _, _, _, _, _ | .num _, _, _, _, _ | .str _, _, _, _, _ =>
    found_scalar hp hpath.canonical rfl
  | .obj fields, _, htidy, hflat, harrays => by
    rw [ofJson]
    split
    · rw [found_rows, foundItems_singleton]
      exact found_ofFields hp hpath (isUnder_refl _) fields htidy.1 htidy.2 hflat harrays
    · exact found_ofFields hp hpath hunder fields htidy.1 htidy.2 hflat harrays
  | .arr items, hhome, htidy, hflat, harrays => by
    rw [Json.flat, Bool.and_eq_true, Bool.not_eq_true'] at hflat
    have hitems := found_ofItems hp hpath items htidy hflat.2 hflat.1
    rw [ofJson]
    by_cases hsome : items.any (!·.isNull)
    · have hneeds : needsTable items := by
        rw [needsTable, hsome, hflat.1]
        rfl
      rw [arrays, if_pos hneeds, forall_mem_cons] at harrays
      have hne : path ≠ home := fun heq => Bool.noConfusion (hhome heq)
      rw [hsome, if_neg (by decide), bne_iff_ne.2 hne, harrays.1, if_pos (by rfl), found_rows]
      exact hitems harrays.2
    · -- without items nothing is stored, and there is nothing to come to
      rw [Bool.not_eq_true] at hsome
      rw [hsome, if_pos (by rfl), found_nil]
      clear hitems htidy hflat hhome harrays
      induction items with
      | nil => exact sought_empty.2.1.symm
      | cons item rest ih =>
        rw [any_cons, Bool.or_eq_false_iff] at hsome
        cases item with
        | null => rw [sought_arr_cons rfl, sought_empty.1, nil_append, ← ih hsome.2]
        | _ => exact Bool.noConfusion hsome.1

theorem found_ofFields (hp : p.Canonical) {home path : Path} (hpath : path.Clean)
    (hunder : path.isUnder home) :
    (fields : Fields) → Ordered.Increasing (fields.map Prod.fst) → TidyFields fields →
      flatFields fields → (∀ q ∈ arraysInFields path fields, isNested q) →
      found p (ofFields isNested home path fields) = sought p path (.obj fields)
  | [], _, _, _, _ => by
    rw [ofFields, found_nil, sought_empty.2.2]
  | (key, value) :: rest, hkeys, htidy, hflat, harrays => by
    rw [flatFields, Bool.and_eq_true] at hflat
    rw [arraysInFields, forall_mem_append] at harrays
    rw [map_cons, Ordered.Increasing, pairwise_cons] at hkeys
    have hfresh : Ordered.get? key rest = none := by
      refine Option.eq_none_iff_forall_ne_some.2 fun v hget => ?_
      have hlt := hkeys.1 key (mem_map.2 ⟨_, Ordered.mem_of_get? hget, rfl⟩)
      have hself : compare key key = .eq := Std.ReflCmp.compare_self
      rw [hself] at hlt
      cases hlt
    have hvalue := found_ofJson hp (hpath.child htidy.1)
      (isUnder_trans (isUnder_child hpath htidy.1) hunder) value
      (fun heq => absurd heq (child_ne_of_isUnder hpath htidy.1 hunder)) htidy.2.1 hflat.1 harrays.1
    have hrest := found_ofFields hp hpath hunder rest hkeys.2 htidy.2.2 hflat.2 harrays.2
    refine found_append ?_
    rw [hvalue, hrest]
    exact sought_obj_cons hpath htidy.1 value hfresh

theorem found_ofItems (hp : p.Canonical) {path : Path} (hpath : path.Clean) :
    (items : List Json) → TidyItems items → flatItems items → items.any isArr = false →
      (∀ q ∈ arraysInItems path items, isNested q) →
      foundItems p (ofItems isNested path items) = sought p path (.arr items)
  | [], _, _, _, _ => by
    rw [ofItems, foundItems, sought_empty.2.1]
  | item :: rest, htidy, hflat, hnone, harrays => by
    rw [TidyItems] at htidy
    rw [flatItems, Bool.and_eq_true] at hflat
    rw [any_cons, Bool.or_eq_false_iff] at hnone
    have hmore := found_ofItems hp hpath rest htidy.2 hflat.2 hnone.2
    rw [sought_arr_cons hnone.1]
    cases item with
    | arr => exact Bool.noConfusion hnone.1
    | null =>
      rw [sought_empty.1, nil_append]
      exact hmore harrays
    | obj fields =>
      rw [arraysInItems, forall_mem_append] at harrays
      rw [ofItems, foundItems, hmore harrays.2]
      exact congrArg (· ++ _) (found_ofFields hp hpath (isUnder_refl _) fields htidy.1.1 htidy.1.2
        hflat.1 harrays.1)
    | _ =>
      simp only [ofItems]
      rw [foundItems, hmore harrays]
      refine congrArg (· ++ _) (Eq.trans ?_ (sought_scalar hp hpath.canonical rfl).symm)
      rw [scalar, foundRows, foundRows, flatMap_singleton, valueAt, nil_append]

end

end

end Entry

namespace Snowflake

open Plan

/-- The rows of an array that hang on a row, in order. -/
def childRows (s : Snowflake) (tables : Tables) (n : Path) (r : Cells) : List Cells :=
  Ordered.sortBy (fun a b : Cells => decide (a.order.rank ≤ b.order.rank))
    ((tables (s.tableName n)).filter fun row => row.parent == r.uid)

/-- The rows of an array that hang on the row of a document, level by level and
    each level in order. -/
def rowsBeneath (s : Snowflake) (tables : Tables) (r : Cells) (n : Path) : List Cells :=
  (s.nestedPathList n).reverse.tail.foldl (fun rows m => rows.flatMap (s.childRows tables m)) [r]

/-- What a row of an array has in the columns of a path. -/
def valuesAt (s : Snowflake) (p n : Path) (r : Cells) : List Json :=
  (((valueColumnsOf s n).filter (·.name == p)).map fun c => r c.physical).filter (!·.isNull)

/-- The values in the columns of a path, in the rows of a document. -/
def valuesBeneath (s : Snowflake) (tables : Tables) (r : Cells) (p : Path) : List Json :=
  (Plan.arrays s).flatMap fun n => (s.rowsBeneath tables r n).flatMap (s.valuesAt p n)

section

variable {s : Snowflake} (hs : s.Laid) {p n : Path}

include hs

theorem valuesAt_of_ne (hn : n ≠ s.nestedPathOf p) (r : Cells) : s.valuesAt p n r = [] := by
  have hnone : (valueColumnsOf s n).filter (·.name == p) = [] := by
    refine filter_eq_nil_iff.2 fun c hc hname => hn ?_
    obtain ⟨_, hnested, hpresence, hhome⟩ := (mem_valueColumnsOf hs).1 hc
    rw [← hhome, ← eq_of_beq hname, homeOf_of_inside]
    cases htype : c.type with
    | nested => exact absurd htype hnested
    | presence => exact absurd htype hpresence
    | _ => rfl
  rw [valuesAt, hnone]
  rfl

/-- What a row that was written has at a path is the value of the entry that is there. -/
theorem valuesAt_foldl_write (hfit : Entry.FitRow s n entries)
    (hbase : Node.Begins uid base) (hholds : s.Holds n (entries.foldl (write s) base)) :
    s.valuesAt p n (entries.foldl (write s) base) = entries.flatMap (Entry.valueAt p) := by
  generalize hr : entries.foldl (write s) base = r at hholds
  let cells := entries.filter fun e => e.isCell && e.path == p
  have hentries : entries.flatMap (Entry.valueAt p) = cells.map fun e => r (e.column s) := by
    have hcell : ∀ e ∈ entries, Entry.valueAt p e =
        if (e.isCell && e.path == p) = true then [r (e.column s)] else [] := by
      intro e he
      rw [← hr, hfit.foldl_write hs.toArraysOrdered he]
      cases e with
      | cell path type value => simp [Entry.valueAt, Entry.isCell, Entry.path, Entry.content]
      | rows => rfl
    rw [flatMap_congr hcell]
    dsimp only [cells]
    clear hcell hfit hr cells
    induction entries with
    | nil => rfl
    | cons e rest ih =>
      rw [flatMap_cons, ih, filter_cons]
      split <;> rfl
  have hcolumns : s.valuesAt p n r =
      (((s.filledColumns n r).map Column.label).filter (·.1 == p)).map fun l =>
        r (s.columnName l.1 l.2) := by
    rw [valuesAt, filledColumns, filter_map, filter_filter, filter_map, filter_filter,
      map_map, filter_congr fun c _ => Bool.and_comm _ _]
    refine map_congr_left fun c hc => ?_
    obtain ⟨hc, hnested, _⟩ := (mem_valueColumnsOf hs).1 (mem_of_mem_filter hc)
    exact congrArg r (physical_eq hs hc hnested)
  have hperm : (((s.filledColumns n r).map Column.label).filter (·.1 == p)).Perm
    (cells.map label) := by
    refine (perm_ext_iff_of_nodup ((nodup_filledColumns hs).filter _)
      (hfit.nodup_labels.sublist (filter_sublist.map _))).2 fun l => ?_
    rw [mem_filter, mem_filledColumns hs, ← hr, fills_foldl_write hs hfit hbase (hr ▸ hholds),
      mem_map, beq_iff_eq]
    constructor
    · rintro ⟨⟨⟨e, he, rfl⟩, hpresence⟩, hpath⟩
      refine ⟨e, mem_filter.2 ⟨he, ?_⟩, rfl⟩
      cases e with
      | rows => exact absurd rfl hpresence
      | cell path type value => exact beq_iff_eq.2 hpath
    · rintro ⟨e, he, rfl⟩
      obtain ⟨he, hcell⟩ := mem_filter.1 he
      cases e with
      | rows => cases hcell
      | cell path type value =>
        exact ⟨⟨⟨_, he, rfl⟩, (hfit.fit _ he).storage_ne_presence⟩, eq_of_beq hcell⟩
  rw [hcolumns, hentries]
  have hvalues := hperm.map fun l => r (s.columnName l.1 l.2)
  rw [map_map] at hvalues
  -- at most one entry is at the path, so the order does not matter
  rcases hcells : cells with _ | ⟨e, _ | ⟨d, more⟩⟩
  · rw [hcells] at hvalues
    exact hvalues.eq_nil
  · rw [hcells] at hvalues
    exact perm_singleton.1 hvalues
  · have hapart : (cells.map Entry.path).Nodup := hfit.apart.sublist (filter_sublist.map _)
    have hat : ∀ e ∈ cells, e.path = p := fun e he =>
      eq_of_beq (Bool.and_eq_true_iff.1 (mem_filter.1 he).2).2
    rw [hcells, forall_mem_cons, forall_mem_cons] at hat
    rw [hcells] at hapart
    simp [hat.1, hat.2.1] at hapart

end

end Snowflake

namespace Node

open Plan Snowflake

section

variable {s : Snowflake} (hs : s.ArraysOrdered) {tables : Tables} {forest : List Node}
  (h : StoredAs s tables forest)

include hs h

variable {n : Path} {x : Node}

theorem StoredAs.childRows_eq (hn : n ∈ s.nested)
    (hx : x ∈ withinAll (s.parentNestedPath n) forest) :
    s.childRows tables n x.cells = (x.kids n).map cells := by
  have hsorted : ((x.kids n).map cells).Pairwise fun a b =>
      decide (a.order.rank ≤ b.order.rank) :=
    pairwise_map.2 ((sorted_kids (h.sprouted.of_mem hx).1 n).imp fun hlt =>
      decide_eq_true (Nat.le_of_lt hlt))
  have hrows : (tables (s.tableName n)).filter (fun row => row.parent == x.cells.uid) =
      (x.kids n).map cells := by
    rw [h.rows n ((mem_arrays hs).2 (.inr hn)), rowsOf, filter_map,
      ← h.sprouted.filter_hangs hs hn hx]
    rfl
  rw [childRows, hrows, Ordered.sortBy_of_pairwise hsorted]

/-- The rows of an array beneath a document are those of its tree: level by
    level, those that hang on the rows of the array around it. -/
theorem StoredAs.rowsBeneath_eq (hx : x ∈ forest) (hn : n ∈ arrays s) :
    s.rowsBeneath tables x.cells n = (within n x).map cells := by
  have hproper := h.sprouted.proper x hx
  have hroot := h.sprouted.documents x hx
  induction hdepth : n.depth using Nat.strong_induction_on generalizing n with
  | h depth ih =>
    rcases (mem_arrays hs).1 hn with rfl | hn
    · have hself := within_self hs hproper
      rw [hroot] at hself
      rw [rowsBeneath, nestedPathList_root hs, hself canonical_root]
      rfl
    · have hhome := isHome_parentNestedPath hs fun hroot => hs.not_root (hroot ▸ hn)
      have hlt := depth_lt_of_isUnder (hs.canonical n hn) (hhome.canonical hs)
        (hhome.outside rfl).symm hhome.under
      have hparent := ih _ (hdepth ▸ hlt) ((mem_arrays hs).2 hhome.known) rfl
      have hne : s.nestedPathList (s.parentNestedPath n) ≠ [] :=
        ne_nil_of_mem (mem_nestedPathList_root s _)
      rw [rowsBeneath, nestedPathList_cons hs hn, reverse_cons,
        tail_append_of_ne_nil (by simpa using hne), foldl_append]
      change (s.rowsBeneath tables x.cells (s.parentNestedPath n)).flatMap _ = _
      rw [hparent, hproper.within_eq hs hn, if_neg fun heq =>
        hs.not_root (hroot.symm.trans heq ▸ hn),
        append_nil, flatMap_map, map_flatMap]
      refine flatMap_congr fun y hy => h.childRows_eq hs hn ?_
      rw [withinAll_eq]
      exact mem_flatMap.2 ⟨x, hx, hy⟩

end

section

variable {s : Snowflake} (hs : s.Laid) (p : Path)

/-- The values at a path in the rows of trees. -/
def foundIn (s : Snowflake) (p : Path) (nodes : List Node) : List Json :=
  nodes.flatMap fun y => s.valuesAt p (s.nestedPathOf p) y.cells

include hs

/-- A row that was written has the values of its entries, and those of the rows that hang on it. -/
theorem foundIn_mk {path : Path} (hfit : Entry.FitRow s path entries)
    (hbase : Begins uid base) {children : List Node}
    (hholds : s.Holds path (entries.foldl (write s) base))
    (hbelow : foundIn s p (withinAll (s.nestedPathOf p) children) = foundRows p entries) :
    foundIn s p (within (s.nestedPathOf p) (.mk path (entries.foldl (write s) base) children)) =
      found p entries := by
  have hown := valuesAt_foldl_write (p := p) hs hfit hbase hholds
  rw [within, foundIn, flatMap_append, found, ← hown]
  refine congrArg₂ (· ++ ·) hbelow ?_
  split
  next hpath =>
    rw [flatMap_singleton, ← hpath]
    rfl
  next hpath => exact (valuesAt_of_ne hs hpath _).symm

theorem foundIn_ofEntries (entries : List Entry) (next : Counters) (uid : Int) {home : Path}
    (hfit : Entry.FitRow s home entries)
    (hholds : ∀ m, ∀ r ∈ rowsOf (ofEntries s next uid entries).1 m, s.Holds m r) :
    foundIn s p (withinAll (s.nestedPathOf p) (ofEntries s next uid entries).1) =
      foundRows p entries := by
  induction next, uid, entries using ofEntries.induct s _ (fun next parent path order items =>
      (∀ item ∈ items, Entry.FitRow s path item) →
      (∀ m, ∀ r ∈ rowsOf (ofItems s next parent path order items).1 m, s.Holds m r) →
      foundIn s p (withinAll (s.nestedPathOf p) (ofItems s next parent path order items).1) =
        foundItems p items) generalizing home with
  | case1 =>
    rw [ofEntries, foundRows]
    rfl
  | case2 next uid path type value rest ih =>
    rw [ofEntries] at hholds ⊢
    rw [foundRows]
    exact ih hfit.tail hholds
  | case3 next uid path items rest made ihitems =>
    rename_i ih
    rw [ofEntries, rowsOf_append] at hholds
    rw [ofEntries, withinAll_append, foundIn, flatMap_append, foundRows]
    exact congrArg₂ (· ++ ·)
      (ihitems (hfit.fit _ mem_cons_self).items fun m r hr => hholds m r (mem_append_left _ hr))
      (ih hfit.tail fun m r hr => hholds m r (mem_append_right _ hr))
  | case4 =>
    rw [ofItems, foundItems]
    rfl
  | case5 next parent path order item rest below ihitem ih hfit hholds =>
    rw [ofItems, ← singleton_append, rowsOf_append] at hholds
    have hfirst := fun m r hr => hholds m r (mem_append_left _ (mem_rowsOf_mk.2 hr))
    have hitem := hfit item mem_cons_self
    rw [ofItems, withinAll, foundIn, flatMap_append, foundItems]
    exact congrArg₂ (· ++ ·)
      (foundIn_mk hs p hitem (begins_itemCells _ _ _) (hfirst path _ (.inr ⟨rfl, rfl⟩))
        (ihitem hitem fun m r hr => hfirst m r (.inl hr)))
      (ih (fun other h => hfit other (.tail _ h)) fun m r hr =>
        hholds m r (mem_append_right _ hr))

theorem foundIn_ofDocuments {docs : List (String × Json)} (hdocs : ∀ doc ∈ docs, doc.2.Tidy)
    (next : Counters) (hholds : ∀ m, ∀ r ∈ rowsOf (ofDocuments s next docs).1 m, s.Holds m r) :
    ((ofDocuments s next docs).1.map fun x => foundIn s p (within (s.nestedPathOf p) x)) =
      docs.map fun doc => found p (ofJson s.isNested .root .root doc.2) := by
  induction docs generalizing next with
  | nil => rfl
  | cons doc rest ih =>
    rw [forall_mem_cons] at hdocs
    rw [ofDocuments, ← singleton_append, rowsOf_append] at hholds
    have hfirst := fun m r hr => hholds m r (mem_append_left _ (mem_rowsOf_mk.2 hr))
    have hfit := fitRow_document hs.toArraysOrdered hdocs.1
    rw [ofDocuments, map_cons, map_cons]
    exact congrArg₂ List.cons
      (foundIn_mk hs p hfit (begins_documentCells _ _) (hfirst .root _ (.inr ⟨rfl, rfl⟩))
        (foundIn_ofEntries hs p _ _ _ hfit fun m r hr => hfirst m r (.inl hr)))
      (ih hdocs.2 _ fun m r hr => hholds m r (mem_append_right _ hr))

end

end Node

namespace Snowflake

open Plan

/-- What a row and the rows beneath it have at a path is in the rows of one array. -/
theorem valuesBeneath_eq {s : Snowflake} (hs : s.Laid) {tables : Tables} {forest : List Node}
    (h : Node.StoredAs s tables forest) {x : Node} (hx : x ∈ forest) (p : Path) :
    s.valuesBeneath tables x.cells p = Node.foundIn s p (Node.within (s.nestedPathOf p) x) := by
  have harrays := hs.toArraysOrdered
  have hhome : s.nestedPathOf p ∈ Plan.arrays s :=
    (mem_arrays harrays).2 (isHome_nestedPathOf harrays p).known
  have hrows : ∀ n ∈ Plan.arrays s, (s.rowsBeneath tables x.cells n).flatMap (s.valuesAt p n) =
      if n = s.nestedPathOf p then Node.foundIn s p (Node.within (s.nestedPathOf p) x) else [] := by
    intro n hn
    rw [h.rowsBeneath_eq harrays hx hn, flatMap_map]
    split
    next heq =>
      rw [heq]
      rfl
    next hne => exact flatMap_eq_nil_iff.2 fun y _ => valuesAt_of_ne hs hne _
  -- only the home of `p` contributes, and it is listed once
  obtain ⟨front, back, hsplit⟩ := append_of_mem hhome
  have hnodup := nodup_arrays harrays
  rw [hsplit, nodup_append, nodup_cons] at hnodup
  have hnone : ∀ paths : List Path, s.nestedPathOf p ∉ paths →
      paths.flatMap (fun n => if n = s.nestedPathOf p then
        Node.foundIn s p (Node.within (s.nestedPathOf p) x) else []) = [] := by
    intro paths hmem
    refine flatMap_eq_nil_iff.2 fun n hn => if_neg ?_
    rintro rfl
    exact hmem hn
  rw [valuesBeneath, flatMap_congr hrows, hsplit, flatMap_append, flatMap_cons, if_pos rfl,
    hnone front fun hmem => hnodup.2.2 _ hmem _ mem_cons_self rfl, hnone back hnodup.2.1.1,
    append_nil, nil_append]

/-- What is looked up in a document that was stored where nothing was are the
    values at the path in its rows, in the order of the rows. -/
theorem lookup_stored (fact : String) (clock : Float) {docs : List (String × Json)}
    (hdocs : ∀ doc ∈ docs, doc.2.Document ∧ doc.2.flat = true) :
    ∃ shredded s, { empty fact with clock }.shred docs = (.ok shredded, s) ∧
      ∀ keys : List String, keys ≠ [] → (∀ key ∈ keys, Path.CleanKey key) →
        ((shredded.apply fun _ => []) s.fact).map (fun r =>
            s.valuesBeneath (shredded.apply fun _ => []) r (Path.ofKeys keys)) =
          docs.map fun doc => (doc.2.lookup (Path.ofKeys keys)).scalars := by
  rcases shred_empty fact clock fun doc hdoc => (hdocs doc hdoc).1 with
    ⟨shredded, s, next, hshred, hs, _, hnested, hstored, hholds⟩
  refine ⟨shredded, s, hshred, fun keys hne hclean => ?_⟩
  have harrays := hs.toArraysOrdered
  have hrows := hstored.rows Path.root ((mem_arrays harrays).mpr (Or.inl rfl))
  rw [Node.rowsOf, hstored.sprouted.withinAll_root harrays] at hrows
  change (shredded.apply fun _ => []) s.fact = _ at hrows
  rw [hrows, List.map_map]
  refine (List.map_congr_left fun x hx => valuesBeneath_eq hs hstored hx _).trans ?_
  rw [Node.foundIn_ofDocuments hs _ (fun doc hdoc => (hdocs doc hdoc).1.2) next hholds]
  refine List.map_congr_left fun doc hdoc => ?_
  rcases hdocs doc hdoc with ⟨hdoc', hflat⟩
  have hp := Path.keys_ofKeys hclean
  have hcanonical : (Path.ofKeys keys).Canonical := congrArg Path.ofKeys hp
  rw [Json.scalars_lookup _ hne hclean, Entry.found_ofJson hcanonical Path.clean_root
    (Path.isUnder_refl _) doc.2 (fun _ => ?_) hdoc'.2 hflat (fun q hq => ?_), Entry.sought,
    if_pos (Path.isUnder_root _), hp]
  · rfl
  · cases hvalue : doc.2 with
    | arr => exact Bool.noConfusion (hvalue ▸ hdoc'.1)
    | _ => rfl
  · rw [hnested]
    exact List.contains_iff_mem.mpr (List.mem_flatMap.mpr ⟨doc.2, List.mem_map_of_mem hdoc, hq⟩)

/-- Documents with arrays in arrays of objects, and one value where there are arrays elsewhere. -/
def fanned : List (String × Json) :=
  [("x", .obj
    [("a", .arr [.obj [("b.c", .nat 1)], .null, .obj [("b.c", .arr [.nat 2, .obj [], .str "d"])],
      .nat 3])]), ("y", .obj [("a", .obj [("b.c", .bool true)])])]

theorem lookup_stored_fanned :
    (∀ doc ∈ fanned, doc.2.Document ∧ doc.2.flat = true) ∧
    (∀ key ∈ ["a", "b.c"], Path.CleanKey key) ∧
      ∃ shredded s, { empty "t" with clock := 1.5 }.shred fanned = (.ok shredded, s) ∧
        ((shredded.apply fun _ => []) s.fact).map (fun r =>
            s.valuesBeneath (shredded.apply fun _ => []) r (Path.ofKeys ["a", "b.c"])) =
          [[.nat 1, .nat 2, .str "d"], [.bool true]] := by
  have hdocs : ∀ doc ∈ fanned, doc.2.Document ∧ doc.2.flat = true := by
    decide +kernel
  have hkeys : ∀ key ∈ ["a", "b.c"], Path.CleanKey key := by
    decide
  rcases lookup_stored "t" 1.5 hdocs with ⟨shredded, s, hshred, hlookup⟩
  refine ⟨hdocs, hkeys, shredded, s, hshred, (hlookup _ (List.cons_ne_nil _ _) hkeys).trans ?_⟩
  simp only [Json.scalars_lookup _ (List.cons_ne_nil _ _) hkeys]
  rfl

end Snowflake

end Snowbank
