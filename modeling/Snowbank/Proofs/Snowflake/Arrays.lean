import Snowbank.Proofs.Ordered
import Snowbank.Proofs.Path

/-!
# The Arrays around a Path

The arrays that a path lies in form a chain: of two of them, the deeper lies
in the other. So there is one deepest array around a path, and the list of
all of them is strictly in order of depth, down to the root.

Where values are stored is the deepest array around their path. The count of
an array and its marker are stored outside it, so for them the array itself is
left out.

## Main definitions

* `ArraysOrdered`: Arrays are a set of canonical paths, not of the root.
* `IsHome`: The deepest array that values at a path can lie in.

## Theorems

* `isHome_homeOf`: The home that is computed is the deepest array.
* `tableName_inj`: Every array has a table of its own.
-/

namespace Snowbank

open List Ordered Path Bool

variable {a b home : Path}

/-- The count and the marker of an array, which are stored outside it. -/
def DataType.isOutside : DataType → Bool
  | .presence | .nested => true
  | _ => false

namespace Snowflake

/-- The arrays of a catalog are a set of canonical paths, not of the root. -/
structure ArraysOrdered (s : Snowflake) : Prop where
  increasing : Ordered.Increasing s.nested
  canonical : ∀ n ∈ s.nested, n.Canonical
  not_root : .root ∉ s.nested

/-- An array, or the root, that values of a type at a path can lie in. -/
structure Around (s : Snowflake) (path : Path) (type : DataType) (array : Path) : Prop where
  known : array = Path.root ∨ array ∈ s.nested
  under : path.isUnder array
  outside : type.isOutside → array ≠ path

/-- The deepest array that values of a type at a path can lie in. -/
structure IsHome (s : Snowflake) (path : Path) (type : DataType) (home : Path) : Prop
    extends Around s path type home where
  deepest : ∀ array, s.Around path type array → array.depth ≤ home.depth

theorem tableName_inj {s : Snowflake} (h : s.tableName a = s.tableName b) : a = b := by
  -- the table of an array is longer than that of the documents
  have hlonger : ∀ p : Path, s.fact ≠ s.fact ++ "." ++ p := by
    intro p heq
    have hlen := congrArg String.length heq
    rw [String.length_append, String.length_append] at hlen
    have hdot : ".".length = 1 := by decide
    omega
  unfold tableName at h
  by_cases ha : a = .root <;> by_cases hb : b = .root
  · rw [ha, hb]
  · rw [if_pos (by simpa using ha), if_neg (by simpa using hb)] at h
    exact absurd h (hlonger b)
  · rw [if_neg (by simpa using ha), if_pos (by simpa using hb)] at h
    exact absurd h.symm (hlonger a)
  · rw [if_neg (by simpa using ha), if_neg (by simpa using hb)] at h
    exact (String.append_right_inj _).1 h

section

variable {path array : Path}

variable {s : Snowflake}

theorem isNested_iff : s.isNested path ↔ path ∈ s.nested := contains_iff_mem

theorem mem_nestedPathList : array ∈ s.nestedPathList path ↔
      (array = .root ∨ array ∈ s.nested) ∧ path.isUnder array := by
  unfold nestedPathList
  rw [mem_append, (perm_sortBy _).mem_iff, mem_filter, mem_singleton]
  constructor
  · rintro (⟨hmem, hunder⟩ | rfl)
    · exact ⟨.inr hmem, hunder⟩
    · exact ⟨.inl rfl, isUnder_root path⟩
  · rintro ⟨rfl | hmem, hunder⟩
    · exact .inr rfl
    · exact .inl ⟨hmem, hunder⟩

variable (hs : s.ArraysOrdered)

include hs

theorem ArraysOrdered.depth_pos {n : Path} (hn : n ∈ s.nested) : 0 < n.depth :=
  length_pos_iff.2 ((hs.canonical n hn).keys_ne_nil fun h => hs.not_root (h ▸ hn))

theorem ArraysOrdered.canonical_of_mem (h : array ∈ s.nestedPathList path) : array.Canonical := by
  rcases (mem_nestedPathList.1 h).1 with rfl | hn
  · exact canonical_root
  · exact hs.canonical array hn

/-- The arrays around a path are strictly in order of depth. -/
theorem pairwise_nestedPathList (path : Path) :
    (s.nestedPathList path).Pairwise fun a b => b.depth < a.depth := by
  have hmem : ∀ {a}, a ∈ sortBy (fun a b : Path => b.depth ≤ a.depth)
      (s.nested.filter path.isUnder) → a ∈ s.nested ∧ path.isUnder a := fun h =>
    mem_filter.1 ((perm_sortBy _).mem_iff.1 h)
  have hsorted := pairwise_sortBy (fun a b : Path => b.depth ≤ a.depth)
    (fun a b h => by simp only [decide_eq_false_iff_not, decide_eq_true_eq] at h ⊢; omega)
    (fun a b c hab hbc => by simp only [decide_eq_true_eq] at hab hbc ⊢; omega)
    (s.nested.filter path.isUnder)
  have hnodup : (sortBy (fun a b : Path => b.depth ≤ a.depth)
      (s.nested.filter path.isUnder)).Nodup :=
    (perm_sortBy _).nodup_iff.2 (hs.increasing.nodup.filter _)
  refine pairwise_append.2 ⟨?_, pairwise_singleton _ _, ?_⟩
  · -- two arrays around a path that are equally deep are one
    refine (hsorted.and hnodup).imp_of_mem fun {a b} ha hb hab => ?_
    have hle : b.depth ≤ a.depth := by simpa using hab.1
    refine lt_of_le_of_ne hle fun heq => hab.2 ?_
    exact eq_of_depth_eq (hs.canonical a (hmem ha).1) (hs.canonical b (hmem hb).1)
      (hmem ha).2 (hmem hb).2 heq.symm
  · intro a ha b hb
    rw [mem_singleton.1 hb]
    exact hs.depth_pos (hmem ha).1

/-- The first of the arrays around a path with a property is the deepest with that property. -/
theorem find?_nestedPathList {p : Path → Bool} (h : (s.nestedPathList path).find? p = some array) :
    array ∈ s.nestedPathList path ∧ p array ∧
      ∀ other ∈ s.nestedPathList path, p other → other.depth ≤ array.depth := by
  obtain ⟨hp, front, back, hsplit, hfront⟩ := find?_eq_some_iff_append.1 h
  refine ⟨mem_of_find?_eq_some h, hp, fun other hother hpo => ?_⟩
  have hsorted := pairwise_nestedPathList hs path
  rw [hsplit] at hother hsorted
  rcases mem_append.1 hother with hin | hin
  · exact absurd hpo (by simpa using hfront other hin)
  · rcases mem_cons.1 hin with rfl | hin
    · exact le_refl _
    · exact (rel_of_pairwise_cons (pairwise_append.1 hsorted).2.1 hin).le

end

section

variable {type : DataType} {path : Path}

variable {s : Snowflake}

theorem nestedPathOf_eq_find? (s : Snowflake) (path : Path) :
    s.nestedPathOf path = ((s.nestedPathList path).find? fun _ => true).getD .root := by
  unfold nestedPathOf
  cases s.nestedPathList path <;> rfl

theorem mem_nestedPathList_root (s : Snowflake) (path : Path) : .root ∈ s.nestedPathList path :=
  mem_nestedPathList.2 ⟨.inl rfl, isUnder_root path⟩

theorem homeOf_of_inside (h : type.isOutside = false) (path : Path) :
    s.homeOf path type = s.nestedPathOf path := by
  cases type with
  | presence | nested => cases h
  | _ => rfl

variable (hs : s.ArraysOrdered)

include hs

theorem isHome_homeOf (hroot : type.isOutside → path ≠ Path.root) :
    s.IsHome path type (s.homeOf path type) := by
  -- the root is around every path but itself, so there is a deepest array
  -- both rules look for the first array around the path that is not left out
  let chosen : Path → Bool := fun array => !type.isOutside || array != path
  have hchosen : ∀ array, chosen array ↔ (type.isOutside → array ≠ path) := by
    intro array
    simp only [chosen, or_eq_true, not_eq_true', bne_iff_ne]
    cases type.isOutside <;> simp
  have hfind : s.homeOf path type =
      ((s.nestedPathList path).find? chosen).getD Path.root := by
    cases type with
    | presence | nested => rfl
    | _ => exact nestedPathOf_eq_find? s path
  cases hfound : (s.nestedPathList path).find? chosen with
  | none =>
    have hnone := find?_eq_none.1 hfound Path.root (mem_nestedPathList_root s path)
    exact absurd ((hchosen _).2 fun h => (hroot h).symm) hnone
  | some array =>
    rw [hfind, hfound]
    obtain ⟨hmem, hp, hdeep⟩ := find?_nestedPathList hs hfound
    obtain ⟨hknown, hunder⟩ := mem_nestedPathList.1 hmem
    refine ⟨⟨hknown, hunder, (hchosen _).1 hp⟩, fun other hother => ?_⟩
    exact hdeep other (mem_nestedPathList.2 ⟨hother.known, hother.under⟩)
      ((hchosen _).2 hother.outside)

/-- The deepest array around a path that is not an array itself. -/
theorem isHome_nestedPathOf (path : Path) : s.IsHome path .object (s.nestedPathOf path) :=
  isHome_homeOf hs fun h => Bool.noConfusion h

/-- The deepest array around an array. -/
theorem isHome_parentNestedPath (hroot : path ≠ .root) :
    s.IsHome path .presence (s.parentNestedPath path) :=
  isHome_homeOf hs fun _ => hroot

theorem IsHome.canonical (h : s.IsHome path type home) : home.Canonical :=
  hs.canonical_of_mem (mem_nestedPathList.2 ⟨h.known, h.under⟩)

theorem IsHome.unique (ha : s.IsHome path type a) (hb : s.IsHome path type b) : a = b :=
  eq_of_depth_eq (ha.canonical hs) (hb.canonical hs) ha.under hb.under
    (le_antisymm (hb.deepest a ha.toAround) (ha.deepest b hb.toAround))

theorem head_nestedPathList (hknown : home = .root ∨ home ∈ s.nested) :
    (s.nestedPathList home).head?.getD .root = home := by
  have hself : home ∈ s.nestedPathList home := mem_nestedPathList.2 ⟨hknown, isUnder_refl _⟩
  cases hlist : s.nestedPathList home with
  | nil =>
    rw [hlist] at hself
    cases hself
  | cons first rest =>
    have hsorted := pairwise_nestedPathList hs home
    have hfirst : first ∈ s.nestedPathList home := hlist ▸ mem_cons_self
    have hunder : home.isUnder first := (mem_nestedPathList.1 hfirst).2
    rw [hlist] at hself hsorted
    rcases mem_cons.1 hself with heq | hrest
    · exact heq.symm
    · have hlt := rel_of_pairwise_cons hsorted hrest
      have hle := depth_le_of_isUnder hunder
      omega

theorem nestedPathOf_self (h : path = .root ∨ path ∈ s.nested) : s.nestedPathOf path = path :=
  head_nestedPathList hs h

theorem parentNestedPath_of_not_mem (hroot : path ≠ .root)
    (hnew : path ∉ s.nested) : s.parentNestedPath path = s.nestedPathOf path := by
  have hinside := isHome_nestedPathOf hs path
  have houtside := isHome_parentNestedPath hs hroot
  refine houtside.unique hs ⟨⟨hinside.known, hinside.under, fun _ heq => ?_⟩,
    fun array harray => ?_⟩
  · rcases hinside.known with h | h
    · exact hroot (heq.symm.trans h)
    · exact hnew (heq ▸ h)
  · exact hinside.deepest array ⟨harray.known, harray.under, fun h => Bool.noConfusion h⟩

theorem parentNestedPath_child {key : String} (hpath : path.Clean) (hkey : Path.CleanKey key) :
    s.parentNestedPath (path.append (escapeKey key)) = s.nestedPathOf path := by
  have hkeys := hpath.keys_child hkey
  have hchild : path.append (escapeKey key) ≠ .root := by
    intro heq
    rw [heq] at hkeys
    exact absurd hkeys.symm (by simp)
  have hunder : (path.append (escapeKey key)).isUnder path :=
    isUnder_iff.2 (hkeys ▸ prefix_append _ _)
  have hinside := isHome_nestedPathOf hs path
  have houtside := isHome_parentNestedPath hs hchild
  refine houtside.unique hs ⟨⟨hinside.known, isUnder_trans hunder hinside.under,
    fun _ heq => ?_⟩, fun array harray => ?_⟩
  · have hle := depth_le_of_isUnder hinside.under
    rw [heq, depth, depth, hkeys, length_append, length_singleton] at hle
    omega
  · -- an array around the longer path that is not that path ends before the last key
    refine hinside.deepest array ⟨harray.known, isUnder_iff.2 ?_, fun h => Bool.noConfusion h⟩
    have hprefix := isUnder_iff.1 harray.under
    rw [hkeys] at hprefix
    rcases prefix_concat_iff.1 hprefix with heq | hprefix
    · refine absurd ?_ (harray.outside rfl)
      refine eq_of_keys_eq ?_ (hpath.child hkey).canonical (heq.trans hkeys.symm)
      exact hs.canonical_of_mem (mem_nestedPathList.2 ⟨harray.known, harray.under⟩)
    · exact hprefix

end

end Snowflake

end Snowbank
