import Snowbank.Proofs.Snowflake.Arrays

/-!
# What Documents Hold

The entries of a document follow the document, but rows are made from them by
the arrays of the catalog: an entry goes into the row of the array around it.
The two agree. The walk over a document carries the array it is in, and that is
the deepest array around the path it has come to.

The entries of one row are at different paths. So no cell is written twice,
and the rows of an array beneath a row come from one place in the document.

## Main definitions

* `Tidy`: Keys can be read back from paths, and stand in order.
* `FitRow`: The entries of a row belong there, each at its own path.
* `Placed`: Paths are canonical, and rows are those of known arrays.

## Theorems

* `placed_ofJson`: The entries of a value have a place, whatever its keys.
* `canonical_arraysOf`: The arrays in documents are at canonical paths.
-/

namespace Snowbank

open List Path

namespace Json

mutual

/-- Every key can be read back from a path, and the fields of every object
    stand in the order of their keys, each key once. -/
def Tidy : Json → Prop
  | .obj fields => Ordered.Increasing (fields.map Prod.fst) ∧ TidyFields fields
  | .arr items => TidyItems items
  | _ => True

/-- The same for the values of fields. -/
def TidyFields : List (String × Json) → Prop
  | [] => True
  | (key, value) :: rest => Path.CleanKey key ∧ Tidy value ∧ TidyFields rest

/-- The same for items. -/
def TidyItems : List Json → Prop
  | [] => True
  | item :: rest => Tidy item ∧ TidyItems rest

end

mutual

instance decidableTidy : (value : Json) → Decidable value.Tidy
  | .obj fields =>
    haveI := decidableTidyFields fields
    inferInstanceAs (Decidable (Ordered.Increasing (fields.map Prod.fst) ∧ TidyFields fields))
  | .arr items => decidableTidyItems items
  | .null => .isTrue trivial
  | .bool _ => .isTrue trivial
  | .num _ => .isTrue trivial
  | .str _ => .isTrue trivial

instance decidableTidyFields : (fields : List (String × Json)) → Decidable (TidyFields fields)
  | [] => .isTrue trivial
  | (key, value) :: rest =>
    haveI := decidableTidy value
    haveI := decidableTidyFields rest
    inferInstanceAs (Decidable (Path.CleanKey key ∧ Tidy value ∧ TidyFields rest))

instance decidableTidyItems : (items : List Json) → Decidable (TidyItems items)
  | [] => .isTrue trivial
  | item :: rest =>
    haveI := decidableTidy item
    haveI := decidableTidyItems rest
    inferInstanceAs (Decidable (Tidy item ∧ TidyItems rest))

end

end Json

namespace Entry

def path : Entry → Path
  | cell path _ _ => path
  | rows path _ => path

/-- An entry belongs to rows of an array: values that have no deeper array
    around them, and arrays directly inside it. -/
inductive Fits (s : Snowflake) : Path → Entry → Prop
  | cell {home path : Path} {type : DataType} {value : Json} (canonical : path.Canonical)
      (inside : s.nestedPathOf path = home) (stored : type.storage.isOutside = false)
      (present : value.isNull = false) : Fits s home (cell path type value)
  | rows {home path : Path} {items : List (List Entry)} (known : path ∈ s.nested)
      (inside : s.parentNestedPath path = home) (some : items ≠ [])
      (apart : ∀ item ∈ items, (item.map Entry.path).Nodup)
      (fit : ∀ item ∈ items, ∀ e ∈ item, Fits s path e) : Fits s home (rows path items)

/-- The entries of a row of an array belong there, each at its own path. -/
structure FitRow (s : Snowflake) (home : Path) (entries : List Entry) : Prop where
  apart : (entries.map Entry.path).Nodup
  fit : ∀ e ∈ entries, Fits s home e

theorem Fits.of_rows {s : Snowflake} {home path : Path} {items : List (List Entry)}
    (hknown : path ∈ s.nested) (hinside : s.parentNestedPath path = home) (hsome : items ≠ [])
    (hitems : ∀ item ∈ items, FitRow s path item) : Fits s home (Entry.rows path items) :=
  .rows hknown hinside hsome (fun item h => (hitems item h).apart) fun item h => (hitems item h).fit

theorem Fits.items {s : Snowflake} {home path : Path} {items : List (List Entry)}
    (h : Fits s home (Entry.rows path items)) : ∀ item ∈ items, FitRow s path item := by
  cases h with
  | rows known inside some apart fit => exact fun item hitem => ⟨apart item hitem, fit item hitem⟩

section

variable {s : Snowflake} {home : Path}

theorem FitRow.tail {e : Entry} {rest : List Entry} (h : FitRow s home (e :: rest)) :
    FitRow s home rest :=
  ⟨(nodup_cons.1 h.apart).2, fun d hd => h.fit d (.tail _ hd)⟩

theorem fitRow_nil : FitRow s home [] := ⟨nodup_nil, forall_mem_nil _⟩

theorem fitRow_singleton {e : Entry} (h : Fits s home e) : FitRow s home [e] :=
  ⟨pairwise_singleton _ _, fun _ he => mem_singleton.1 he ▸ h⟩

theorem FitRow.append {as bs : List Entry} (ha : FitRow s home as) (hb : FitRow s home bs)
    (hapart : ∀ a ∈ as, ∀ b ∈ bs, a.path ≠ b.path) : FitRow s home (as ++ bs) := by
  refine ⟨?_, fun e he => (mem_append.1 he).elim (ha.fit e) (hb.fit e)⟩
  rw [map_append]
  refine nodup_append.2 ⟨ha.apart, hb.apart, fun p hp q hq => ?_⟩
  obtain ⟨a, hin, rfl⟩ := mem_map.1 hp
  obtain ⟨b, hin', rfl⟩ := mem_map.1 hq
  exact hapart a hin b hin'

theorem isOutside_ofJson {value : Json} (harr : ∀ items, value ≠ .arr items) :
    (DataType.ofJson value).storage.isOutside = false := by
  cases value with
  | num n => cases n <;> rfl
  | arr items => exact absurd rfl (harr items)
  | _ => rfl

theorem fitRow_scalar {path : Path} {value : Json} (hpath : path.Canonical)
    (hinside : s.nestedPathOf path = home) (hnull : value ≠ .null)
    (harr : ∀ items, value ≠ .arr items) : FitRow s home (scalar path value) := by
  refine fitRow_singleton (.cell hpath hinside (isOutside_ofJson harr) ?_)
  cases value with
  | null => exact absurd rfl hnull
  | _ => rfl

theorem fitRow_text {path : Path} {items : List Json} (hpath : path.Canonical)
    (hinside : s.nestedPathOf path = home) : FitRow s home (text path items) :=
  fitRow_singleton (.cell hpath hinside rfl rfl)

theorem ofItems_ne_nil {isNested : Path → Bool} {path : Path} {items : List Json}
    (h : items.any (!·.isNull)) : ofItems isNested path items ≠ [] := by
  induction items with
  | nil => cases h
  | cons item rest ih =>
    cases item with
    | null => exact ih h
    | _ => exact cons_ne_nil _ _

end

section

variable {path : Path} {key : String} {home : Path}

open Snowflake

variable {s : Snowflake}

/-- Entries that lie beneath two different keys are apart. -/
theorem ne_of_isUnder_child {a b : Path} {other : String} (hpath : path.Clean)
    (hkey : Path.CleanKey key) (hother : Path.CleanKey other) (hne : key ≠ other)
    (ha : a.isUnder (path.append (escapeKey key)))
    (hb : b.isUnder (path.append (escapeKey other))) : a ≠ b := by
  intro heq
  rw [isUnder_iff, hpath.keys_child hkey] at ha
  rw [isUnder_iff, hpath.keys_child hother, ← heq] at hb
  have hsame := prefix_of_prefix_length_le ha hb (by simp)
  have hlast := hsame.eq_of_length (by simp)
  exact hne (by simpa using append_cancel_left hlast)

theorem isUnder_child (hpath : path.Clean)
    (hkey : Path.CleanKey key) : (path.append (escapeKey key)).isUnder path :=
  isUnder_iff.2 (hpath.keys_child hkey ▸ prefix_append _ _)

/-- The walk is at a path in a row of an array: at the array itself, or at a
    path that has the array around it. -/
def At (s : Snowflake) (home path : Path) : Prop := path = home ∧ s.nestedPathOf path = home ∨
    path ≠ home ∧ path ≠ .root ∧ s.parentNestedPath path = home

variable (hs : s.ArraysOrdered)

include hs

/-- Where a path is no array, or the array that the row is of, the row goes on. -/
theorem At.inside (hat : At s home path)
    (hrow : ¬(path != home && s.isNested path)) : s.nestedPathOf path = home := by
  rcases hat with ⟨_, h⟩ | ⟨hne, hroot, h⟩
  · exact h
  · have hnew : path ∉ s.nested := fun hmem =>
      hrow (by rw [bne_iff_ne.2 hne, isNested_iff.2 hmem]; rfl)
    rw [← parentNestedPath_of_not_mem hs hroot hnew, h]

omit hs in
theorem At.enters (hat : At s home path) (hrow : (path != home && s.isNested path)) :
    path ∈ s.nested ∧ s.parentNestedPath path = home := by
  obtain ⟨hne, hnested⟩ := Bool.and_eq_true_iff.1 hrow
  rcases hat with ⟨heq, _⟩ | ⟨_, _, h⟩
  · exact absurd heq (bne_iff_ne.1 hne)
  · exact ⟨isNested_iff.1 hnested, h⟩

theorem At.child (hpath : path.Clean) (hkey : Path.CleanKey key)
    (hinside : s.nestedPathOf path = home) : At s home (path.append (escapeKey key)) := by
  have hkeys := hpath.keys_child hkey
  have hunder := (isHome_nestedPathOf hs path).under
  rw [hinside] at hunder
  have hle := depth_le_of_isUnder hunder
  refine .inr ⟨fun heq => ?_, fun heq => ?_, ?_⟩
  · rw [← heq, depth, depth, hkeys, length_append, length_singleton] at hle
    omega
  · rw [heq] at hkeys
    exact absurd hkeys.symm (by simp)
  · rw [parentNestedPath_child hs hpath hkey, hinside]

/-- What a value holds belongs to the row that the walk is in, and lies
    beneath the path that the walk has come to. -/
theorem fitRow_ofJson (home path : Path) (value : Json) (hpath : path.Clean)
    (hat : At s home path) (hvalue : value.Tidy) :
    FitRow s home (ofJson s.isNested home path value) ∧
      ∀ e ∈ ofJson s.isNested home path value, e.path.isUnder path := by
  have hone : ∀ {e : Entry} {path : Path}, e.path = path →
      ∀ other ∈ [e], other.path.isUnder path := by
    intro e path he other hother
    rw [mem_singleton.1 hother, he]
    exact isUnder_refl path
  induction home, path, value using ofJson.induct s.isNested _
      (fun path items => path.Clean → path ∈ s.nested → Json.TidyItems items →
        ∀ item ∈ ofItems s.isNested path items, FitRow s path item)
      (fun home path fields => path.Clean → s.nestedPathOf path = home →
        Ordered.Increasing (fields.map Prod.fst) → Json.TidyFields fields →
        FitRow s home (ofFields s.isNested home path fields) ∧
          ∀ e ∈ ofFields s.isNested home path fields, ∃ key ∈ fields.map Prod.fst,
            Path.CleanKey key ∧
              e.path.isUnder (path.append (escapeKey key))) with
  | case1 home path => exact ⟨fitRow_nil, forall_mem_nil _⟩
  -- an object where other documents have an array is a row of its own
  | case2 home path fields hcond ih =>
    obtain ⟨hknown, hparent⟩ := hat.enters hcond
    have hfields := (ih hpath (nestedPathOf_self hs (.inr hknown)) hvalue.1 hvalue.2).1
    rw [ofJson, if_pos hcond]
    refine ⟨fitRow_singleton (Fits.of_rows hknown hparent (cons_ne_nil _ _) ?_), hone rfl⟩
    exact fun item hitem => mem_singleton.1 hitem ▸ hfields
  | case3 home path fields hcond ih =>
    obtain ⟨hfit, hunder⟩ := ih hpath (hat.inside hs hcond) hvalue.1 hvalue.2
    rw [ofJson, if_neg hcond]
    refine ⟨hfit, fun e he => ?_⟩
    obtain ⟨key, _, hkey, h⟩ := hunder e he
    exact isUnder_trans h (isUnder_child hpath hkey)
  | case4 home path items hcond =>
    rw [ofJson, if_pos hcond]
    exact ⟨fitRow_nil, forall_mem_nil _⟩
  | case5 home path items hsome hcond ih =>
    obtain ⟨hknown, hparent⟩ := hat.enters hcond
    rw [ofJson, if_neg hsome, if_pos hcond]
    refine ⟨fitRow_singleton (Fits.of_rows hknown hparent ?_ (ih hpath hknown hvalue)), hone rfl⟩
    exact ofItems_ne_nil (by simpa using hsome)
  | case6 home path items hsome hcond =>
    rw [ofJson, if_neg hsome, if_neg hcond]
    exact ⟨fitRow_text hpath.canonical (hat.inside hs hcond), hone rfl⟩
  -- so is a scalar
  | case7 home path value hnull hobj harr hcond =>
    obtain ⟨hknown, hparent⟩ := hat.enters hcond
    rw [ofJson.eq_4 _ _ _ _ hnull hobj harr, if_pos hcond]
    refine ⟨fitRow_singleton (Fits.of_rows hknown hparent (cons_ne_nil _ _) ?_), hone rfl⟩
    intro item hitem
    rw [mem_singleton.1 hitem]
    exact fitRow_scalar hpath.canonical (nestedPathOf_self hs (.inr hknown)) hnull harr
  | case8 home path value hnull hobj harr hcond =>
    rw [ofJson.eq_4 _ _ _ _ hnull hobj harr, if_neg hcond]
    exact ⟨fitRow_scalar hpath.canonical (hat.inside hs hcond) hnull harr, hone rfl⟩
  | case9 path _ _ _ item hitem => cases hitem
  | case10 path rest ih hpath hknown hitems item hitem => exact ih hpath hknown hitems.2 item hitem
  -- the fields of an item lie in the row of the item
  | case11 path fields rest ihfields ih hpath hknown hitems item hitem =>
    rw [Json.TidyItems] at hitems
    rcases mem_cons.1 hitem with rfl | hitem
    · exact (ihfields hpath (nestedPathOf_self hs (.inr hknown)) hitems.1.1 hitems.1.2).1
    · exact ih hpath hknown hitems.2 item hitem
  | case12 path items rest ih hpath hknown hitems item hitem =>
    rcases mem_cons.1 hitem with rfl | hitem
    · exact fitRow_text hpath.canonical (nestedPathOf_self hs (.inr hknown))
    · exact ih hpath hknown hitems.2 item hitem
  | case13 path value rest hnull hobj harr ih hpath hknown hitems item hitem =>
    rw [ofItems.eq_5 _ _ _ _ hnull hobj harr] at hitem
    rcases mem_cons.1 hitem with rfl | hitem
    · exact fitRow_scalar hpath.canonical (nestedPathOf_self hs (.inr hknown)) hnull harr
    · exact ih hpath hknown hitems.2 item hitem
  | case14 home path => exact ⟨fitRow_nil, forall_mem_nil _⟩
  -- keys differ, so what lies beneath one is apart from the others
  | case15 home path key value rest ihvalue ih hpath hinside hkeys hfields =>
    obtain ⟨hkey, hvalue, hrest⟩ := hfields
    obtain ⟨hfit, hunder⟩ := ihvalue (hpath.child hkey) (At.child hs hpath hkey hinside) hvalue
    obtain ⟨hmore, hothers⟩ := ih hpath hinside hkeys.of_cons hrest
    refine ⟨hfit.append hmore fun a ha b hb => ?_, fun e he => ?_⟩
    · obtain ⟨other, hmem, hother, hbunder⟩ := hothers b hb
      refine ne_of_isUnder_child hpath hkey hother (fun heq => ?_) (hunder a ha) hbunder
      exact (nodup_cons.1 hkeys.nodup).1 (heq ▸ hmem)
    · rcases mem_append.1 he with he | he
      · exact ⟨key, mem_cons_self, hkey, hunder e he⟩
      · obtain ⟨other, hmem, hother, h⟩ := hothers e he
        exact ⟨other, mem_cons_of_mem _ hmem, hother, h⟩

end

/-- An entry has a place: the path is canonical, and rows are those of a known array. -/
inductive Placed (nested : List Path) : Entry → Prop
  | cell {path : Path} {type : DataType} {value : Json} (canonical : path.Canonical)
      (stored : type.storage.isOutside = false) : Placed nested (cell path type value)
  | rows {path : Path} {items : List (List Entry)} (canonical : path.Canonical)
      (known : path ∈ nested) (placed : ∀ item ∈ items, ∀ e ∈ item, Placed nested e) :
      Placed nested (rows path items)

theorem placed_ofJson {s : Snowflake} {home path : Path} (value : Json) (hpath : path.Canonical) :
    ∀ e ∈ ofJson s.isNested home path value, Placed s.nested e := by
  have hmember : ∀ {home path : Path}, (path != home && s.isNested path) = true →
      path ∈ s.nested := fun hcond => contains_iff_mem.1 (Bool.and_eq_true_iff.1 hcond).2
  have hone : ∀ {e : Entry}, Placed s.nested e → ∀ other ∈ [e], Placed s.nested other :=
    fun he => forall_mem_singleton.2 he
  induction home, path, value using ofJson.induct s.isNested _
      (fun path items => path.Canonical →
        ∀ item ∈ ofItems s.isNested path items, ∀ e ∈ item, Placed s.nested e)
      (fun home path fields => path.Canonical →
        ∀ e ∈ ofFields s.isNested home path fields, Placed s.nested e) with
  | case1 home path => exact forall_mem_nil _
  | case2 home path fields hcond ih =>
    rw [ofJson, if_pos hcond]
    exact hone (.rows hpath (hmember hcond) (forall_mem_singleton.2 (ih hpath)))
  | case3 home path fields hcond ih =>
    rw [ofJson, if_neg hcond]
    exact ih hpath
  | case4 home path items hcond =>
    rw [ofJson, if_pos hcond]
    exact forall_mem_nil _
  | case5 home path items hsome hcond ih =>
    rw [ofJson, if_neg hsome, if_pos hcond]
    exact hone (.rows hpath (hmember hcond) (ih hpath))
  | case6 home path items hsome hcond =>
    rw [ofJson, if_neg hsome, if_neg hcond]
    exact hone (.cell hpath rfl)
  | case7 home path value hnull hobj harr hcond =>
    rw [ofJson.eq_4 _ _ _ _ hnull hobj harr, if_pos hcond]
    refine hone (.rows hpath (hmember hcond) (forall_mem_singleton.2 ?_))
    exact hone (.cell hpath (isOutside_ofJson harr))
  | case8 home path value hnull hobj harr hcond =>
    rw [ofJson.eq_4 _ _ _ _ hnull hobj harr, if_neg hcond]
    exact hone (.cell hpath (isOutside_ofJson harr))
  | case9 path _ item hitem => cases hitem
  | case10 path rest ih hpath item hitem e he => exact ih hpath item hitem e he
  | case11 path fields rest ihfields ih hpath item hitem e he =>
    rcases mem_cons.1 hitem with rfl | hitem
    · exact ihfields hpath e he
    · exact ih hpath item hitem e he
  | case12 path items rest ih hpath item hitem e he =>
    rcases mem_cons.1 hitem with rfl | hitem
    · exact hone (.cell hpath rfl) e he
    · exact ih hpath item hitem e he
  | case13 path value rest hnull hobj harr ih hpath item hitem e he =>
    rw [ofItems.eq_5 _ _ _ _ hnull hobj harr] at hitem
    rcases mem_cons.1 hitem with rfl | hitem
    · exact hone (.cell hpath (isOutside_ofJson harr)) e he
    · exact ih hpath item hitem e he
  | case14 home path _ e he => cases he
  -- one more key leads from a canonical path to another
  | case15 home path key value rest ihvalue ih hpath e he =>
    rcases mem_append.1 he with he | he
    · exact ihvalue (hpath.child key) e he
    · exact ih hpath e he

end Entry

/-- Documents are objects whose keys can be read back from paths. -/
def Json.Document (doc : Json) : Prop := doc.isObj ∧ doc.Tidy

instance (doc : Json) : Decidable doc.Document := inferInstanceAs (Decidable (_ ∧ _))

namespace Snowflake

variable {docs : List Json}

/-- The arrays in a value at a path have canonical paths, whatever the keys
    are, and only at the root can one be the root. -/
theorem canonical_arrays {path : Path} (value : Json) (hpath : path.Canonical) :
    ∀ p ∈ arrays path value, p.Canonical ∧ (p = .root → path = .root) := by
  induction path, value using arrays.induct _
      (fun path items => path.Canonical →
        ∀ p ∈ arraysInItems path items, p.Canonical ∧ (p = .root → path = .root))
      (fun path fields => path.Canonical →
        ∀ p ∈ arraysInFields path fields, p.Canonical ∧ (p = .root → path = .root)) with
  | case1 path fields ih => exact ih hpath
  | case2 path items hneeds ih =>
    rw [arrays, if_pos hneeds]
    exact forall_mem_cons.2 ⟨⟨hpath, id⟩, ih hpath⟩
  | case3 path items hneeds =>
    rw [arrays, if_neg hneeds]
    exact forall_mem_nil _
  | case4 value path hobj harr =>
    rw [arrays.eq_3 _ _ hobj harr]
    exact forall_mem_nil _
  | case5 path _ p hp => cases hp
  | case6 path fields rest ihfields ih hpath p hp =>
    rcases mem_append.1 hp with hp | hp
    · exact ihfields hpath p hp
    · exact ih hpath p hp
  | case7 path value rest hobj ih hpath p hp =>
    rw [arraysInItems.eq_3 _ _ _ hobj] at hp
    exact ih hpath p hp
  | case8 path _ p hp => cases hp
  | case9 path key value rest ihvalue ih hpath p hp =>
    rcases mem_append.1 hp with hp | hp
    · obtain ⟨hcanonical, hroot⟩ := ihvalue (hpath.child key) p hp
      exact ⟨hcanonical, fun h => (hpath.child_eq_root (hroot h)).1⟩
    · exact ih hpath p hp

theorem ne_root_of_mem_arrays {fields : List (String × Json)} (h : Json.TidyFields fields) :
    ∀ p ∈ arraysInFields .root fields, p ≠ .root := by
  induction fields with
  | nil =>
    intro p hp
    cases hp
  | cons field rest ih =>
    obtain ⟨key, value⟩ := field
    obtain ⟨hkey, -, hrest⟩ := h
    intro p hp hroot
    rcases mem_append.1 hp with hp | hp
    · have hat := (canonical_arrays value (canonical_root.child key) p hp).2 hroot
      exact hkey.1 (canonical_root.child_eq_root hat).2
    · exact ih hrest p hp hroot

/-- The arrays in documents. -/
def arraysOf (docs : List Json) : List Path := docs.flatMap (arrays .root)

theorem demands_eq (hdocs : ∀ doc ∈ docs, doc.isObj) : demands docs = (arraysOf docs).map .ok := by
  induction docs with
  | nil => rfl
  | cons doc rest ih =>
    have hrest := ih fun d hd => hdocs d (.tail _ hd)
    cases doc with
    | obj fields => rw [demands, hrest, arraysOf, arraysOf, flatMap_cons, map_append, arrays]
    | _ => exact absurd (hdocs _ mem_cons_self) Bool.false_ne_true

theorem canonical_arraysOf (hdocs : ∀ doc ∈ docs, doc.Document) :
    ∀ p ∈ arraysOf docs, p.Canonical ∧ p ≠ .root := by
  intro p hp
  obtain ⟨doc, hdoc, hp⟩ := mem_flatMap.1 hp
  obtain ⟨hobj, htidy⟩ := hdocs doc hdoc
  refine ⟨(canonical_arrays doc canonical_root p hp).1, ?_⟩
  cases doc with
  | obj fields => exact ne_root_of_mem_arrays htidy.2 p hp
  | _ => cases hobj

end Snowflake

end Snowbank
