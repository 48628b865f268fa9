import Snowbank.Proofs.Snowflake.Entries

/-!
# Catalogs That Have Grown

A catalog starts empty or from stored columns, and everything that is done to
it from then on adds columns, moves them or counts. The types of its columns
are stored types throughout: integers are kept as numbers, and a column of
type null is never made. So a path that is asked for gets the types of its
columns, each once and each as it is stored.

## Main definitions

* `Grown`: The catalogs that can come about.
* `KeepsStored`: Every column has a stored type.

## Theorems

* `shred_keeps`: Storing documents keeps what each of its steps keeps.
* `Grown.keepsStored`: A grown catalog has stored types only.
-/

namespace Snowbank

open List Shredding DataType

variable {path : Path} {st : Shredding} {s : Snowflake}

@[simp] theorem DataType.storage_storage (t : DataType) : t.storage.storage = t.storage := by
  cases t <;> rfl

namespace Snowflake

/-- The catalogs that can come about: an empty one or one of stored columns,
    and whatever becomes of it. -/
inductive Grown : Snowflake → Prop
  | empty (fact : String) : Grown (empty fact)
  | loaded {fact : String} {columns : List Column} {maxUids : List (String × Int)}
      (stored : ∀ c ∈ columns, c.type.storage = c.type) : Grown (ofColumns fact columns maxUids)
  | timed {s : Snowflake} (clock : Float) (h : Grown s) : Grown { s with clock }
  | saved {s : Snowflake} (h : Grown s) : Grown s.takeDirty.2
  | widened {s s' : Snowflake} {path : Path} {type : DataType} {c : Column}
      {changes : List SchemaChange} (h : Grown s)
      (add : s.addColumn path type = .ok (c, changes, s')) : Grown s'
  | nested {s s' : Snowflake} {path : Path} {changes : List SchemaChange} (h : Grown s)
      (nest : s.nest path = .ok (changes, s')) : Grown s'
  | shredded {s : Snowflake} (docs : List (String × Json)) (h : Grown s) : Grown (s.shred docs).2

/-- Every column has a stored type. -/
def KeepsStored (s : Snowflake) : Prop := ∀ c ∈ s.columns, c.type.storage = c.type

theorem KeepsStored.typesAt (h : s.KeepsStored) {t : DataType}
    (ht : t ∈ s.typesAt path) : t.storage = t := by
  obtain ⟨c, hc, rfl⟩ := mem_map.1 (Ordered.mem_elems.1 ht)
  exact h c (mem_filter.1 hc).1

section

variable {c : Column} {path : Path} {type : DataType} {s' : Snowflake} {changes : List SchemaChange}

variable {s : Snowflake}

theorem keepsStored_push (h : s.KeepsStored) (hc : c.type.storage = c.type) :
    (s.push c).KeepsStored := by
  intro d hd
  rcases mem_append.1 hd with hd | hd
  · exact h d hd
  · rw [mem_singleton.1 hd]
    exact hc

theorem keepsStored_ensureColumn (h : s.KeepsStored)
    (htype : type.storage = type) : (s.ensureColumn path type).2.2.KeepsStored := by
  rw [ensureColumn]
  split
  · exact h
  · exact keepsStored_push h htype

theorem keepsStored_relocateAll {parent child : String} (h : s.KeepsStored) :
    (s.relocateAll path parent child).1.KeepsStored := by
  refine forall_mem_map.2 fun d hd => ?_
  -- a column that is put elsewhere keeps its type
  have hkept : (s.relocate parent child d).1.type = d.type := by
    unfold relocate
    dsimp only
    split <;> rfl
  split
  · rw [hkept]
    exact h d hd
  · exact h d hd

theorem keepsStored_nestNew (h : s.KeepsStored) : (s.nestNew path).2.KeepsStored :=
  keepsStored_ensureColumn
    (keepsStored_push (keepsStored_relocateAll (s := { s with nested := _, nextUid := _ }) h) rfl)
    rfl

theorem keepsStored_nest
    (h : s.KeepsStored) (hnest : s.nest path = .ok (changes, s')) : s'.KeepsStored := by
  unfold nest at hnest
  split at hnest
  · cases hnest
  · split at hnest
    · cases hnest
      exact h
    · cases hnest
      exact keepsStored_nestNew h

/-- A column that is asked for is an array, or it is made: one that counts the
    rows of an array only where the array is. -/
theorem addColumn_cases (hadd : s.addColumn path type = .ok (c, changes, s')) :
    (∃ made, s.nest path = .ok (made, s')) ∨
      ∃ stored : DataType, stored.storage = stored ∧ stored ≠ .nested ∧
        (stored.isOutside → path ∈ s.nested) ∧
        s.ensureColumn path stored = (c, changes, s') := by
  unfold addColumn at hadd
  split at hadd
  · cases hnest : s.nest path with
    | error e =>
      rw [hnest] at hadd
      cases hadd
    | ok made =>
      obtain ⟨made, grown⟩ := made
      simp only [hnest, bind, Except.bind] at hadd
      split at hadd <;> cases hadd
      exact .inl ⟨_, rfl⟩
  · split at hadd
    next hnested =>
      exact Or.inr ⟨.presence, rfl, by decide, fun _ => isNested_iff.1 hnested, Except.ok.inj hadd⟩
    · cases hadd
  next hnested hpresence =>
    refine Or.inr ⟨_, type.storage_storage, hnested, fun hout => ?_, Except.ok.inj hadd⟩
    revert hout hnested hpresence
    cases type.storage <;> simp [isOutside]

theorem keepsStored_addColumn (h : s.KeepsStored)
    (hadd : s.addColumn path type = .ok (c, changes, s')) : s'.KeepsStored := by
  rcases addColumn_cases hadd with ⟨made, hnest⟩ | ⟨stored, hstored, _, _, heq⟩
  · exact keepsStored_nest h hnest
  · have hkept : (s.ensureColumn path stored).2.2.KeepsStored := keepsStored_ensureColumn h hstored
    rwa [heq] at hkept

theorem mem_replaceColumn {column : Column} {columns : List Column}
    (h : c ∈ replaceColumn column columns) : c = column ∨ c ∈ columns := by
  induction columns with
  | nil => exact .inr h
  | cons d rest ih =>
    rw [replaceColumn] at h
    split at h
    · exact (mem_cons.1 h).imp_right (mem_cons_of_mem _)
    · rcases mem_cons.1 h with rfl | h
      · exact .inr mem_cons_self
      · exact (ih h).imp_right (mem_cons_of_mem _)

theorem keepsStored_observeLength {length : Nat} (h : s.KeepsStored) :
    (s.observeLength path length).KeepsStored := by
  unfold observeLength
  split
  · exact h
  next c hfound =>
    split
    · intro d hd
      rcases mem_replaceColumn hd with rfl | hd
      · exact h c (mem_of_find?_eq_some hfound)
      · exact h d hd
    · exact h

end

/-- What making a table keeps is kept when several are made. -/
theorem nestAll_keeps {P : Snowflake → Prop} {demanded : List (Except SchemaError Path)}
    (hnest : ∀ {s s' path changes}, .ok path ∈ demanded → P s →
      s.nest path = .ok (changes, s') → P s') :
    ∀ {s : Snowflake}, P s → P (s.nestAll demanded).2 := by
  induction demanded with
  | nil => exact fun h => h
  | cons demand rest ih =>
    intro s h
    cases demand with
    | error e => exact h
    | ok path =>
      rw [nestAll]
      cases hmade : s.nest path with
      | error e => exact h
      | ok made =>
        have hgrown := ih (fun hmem => hnest (.tail _ hmem)) (hnest mem_cons_self h hmade)
        dsimp only
        split <;> (rename_i heq; rw [heq] at hgrown; exact hgrown)

theorem canonical_of_demands {docs : List Json} (h : .ok path ∈ demands docs) :
    path.Canonical := by
  induction docs with
  | nil => cases h
  | cons doc rest ih =>
    cases doc with
    | obj fields =>
      rcases mem_append.1 h with h | h
      · obtain ⟨p, hp, heq⟩ := mem_map.1 h
        exact Except.ok.inj heq ▸ (canonical_arrays (.obj fields) Path.canonical_root p hp).1
      · exact ih h
    | _ => exact absurd h (by simp [demands])

theorem nested_ensureColumn (s : Snowflake) (path : Path) (type : DataType) :
    (s.ensureColumn path type).2.2.nested = s.nested ∧
      (s.ensureColumn path type).2.2.nextUid = s.nextUid := by
  unfold ensureColumn
  split <;> exact ⟨rfl, rfl⟩

theorem nested_observeLength (s : Snowflake) (path : Path) (length : Nat) :
    (s.observeLength path length).nested = s.nested ∧
      (s.observeLength path length).nextUid = s.nextUid := by
  unfold observeLength
  split
  · exact ⟨rfl, rfl⟩
  · split <;> exact ⟨rfl, rfl⟩

theorem snowflake_store {st' : Shredding} {row row' : Row} {type : DataType}
    {value : Json} (h : st.store row path type value = (st', row')) :
    st'.snowflake = (st.snowflake.ensureColumn path type.storage).2.2 := by
  rw [store, Prod.mk.injEq] at h
  rw [← h.1]

section

variable {P : Snowflake → Prop}
  (hstore : ∀ {s : Snowflake} {path : Path} {type : DataType}, path.Canonical →
    type.storage ≠ .nested → (type.storage.isOutside → path ∈ s.nested) → P s →
    P (s.ensureColumn path type.storage).2.2)
  (hobserve : ∀ {s : Snowflake} {path : Path} {length : Nat}, P s → P (s.observeLength path length))
  (huid : ∀ {s : Snowflake} {table : String}, P s → P (s.takeUid table).2)

include hstore hobserve huid

/-- What columns, lengths and numbers of rows keep is kept when a row is
    stored, and no array is made. -/
theorem entries_keeps (st : Shredding) (uid : Int) (row : Row) (entries : List Entry)
    (hplaced : ∀ e ∈ entries, e.Placed st.snowflake.nested) (h : P st.snowflake) :
    P (st.entries uid row entries).1.snowflake ∧
      (st.entries uid row entries).1.snowflake.nested = st.snowflake.nested := by
  induction st, uid, row, entries using Shredding.entries.induct _
      (fun st parent path order items =>
        (∀ item ∈ items, ∀ e ∈ item, e.Placed st.snowflake.nested) → P st.snowflake →
        P (st.children parent path order items).snowflake ∧
          (st.children parent path order items).snowflake.nested = st.snowflake.nested) with
  | case1 st uid row =>
    rw [entries]
    exact ⟨h, rfl⟩
  | case2 st uid row path type value rest st' row' hstored ih =>
    have hgrown := snowflake_store hstored
    have hsame : st'.snowflake.nested = st.snowflake.nested := by
      rw [hgrown, (nested_ensureColumn ..).1]
    cases hplaced _ mem_cons_self with
    | cell canonical inside =>
      have hkept : P st'.snowflake := by
        rw [hgrown]
        exact hstore canonical (fun heq => by rw [heq] at inside; cases inside)
          (fun hout => by rw [inside] at hout; cases hout) h
      obtain ⟨hrest, hnested⟩ := ih (fun e he => hsame ▸ hplaced e (.tail _ he)) hkept
      rw [entries, hstored]
      exact ⟨hrest, hnested.trans hsame⟩
  -- the column of the count, the length, the rows, and then the rest
  | case3 st uid row path items rest st' row' hstored observed hitems _ ih =>
    have hgrown := snowflake_store hstored
    have hsame : observed.snowflake.nested = st.snowflake.nested := by
      rw [(nested_observeLength ..).1, hgrown, (nested_ensureColumn ..).1]
    cases hplaced _ mem_cons_self with
    | rows canonical known placed =>
      have hkept : P observed.snowflake := by
        refine hobserve ?_
        rw [hgrown]
        exact hstore canonical (by decide) (fun _ => known) h
      obtain ⟨hmade, hnested⟩ := hitems (hsame ▸ placed) hkept
      have hstays := hnested.trans hsame
      obtain ⟨hrest, hlast⟩ := ih (fun e he => hstays ▸ hplaced e (.tail _ he)) hmade
      rw [entries, hstored]
      exact ⟨hrest, hlast.trans hstays⟩
  | case4 st parent path order _ h =>
    rw [children]
    exact ⟨h, rfl⟩
  -- numbering a row comes before what the row holds
  | case5 st parent path order item rest table uid s htaken row st' row' hitem hrow ih hplaced h =>
    have hkept : P (st.snowflake.takeUid table).2 := huid h
    have hsame : (st.snowflake.takeUid table).2.nested = st.snowflake.nested := rfl
    rw [htaken] at hkept hsame
    have hstored := hrow (fun e he => hsame ▸ hplaced item mem_cons_self e he) hkept
    rw [hitem] at hstored
    have hstays := hstored.2.trans hsame
    obtain ⟨hrest, hlast⟩ :=
      ih (fun other hother => hstays ▸ hplaced other (.tail _ hother)) hstored.1
    rw [children, htaken]
    dsimp only
    rw [hitem]
    exact ⟨hrest, hlast.trans hstays⟩

theorem documents_keep (docs : List (String × Json)) (h : P st.snowflake) :
    P (docs.foldl (fun st (guid, doc) => st.document guid doc) st).snowflake := by
  induction docs generalizing st with
  | nil => exact h
  | cons doc rest ih =>
    refine ih (entries_keeps hstore hobserve huid
      { st with snowflake := (st.snowflake.takeUid st.snowflake.fact).2 } _ _ _ ?_ (huid h)).1
    exact Entry.placed_ofJson doc.2 Path.canonical_root

theorem shred_keeps (hnest : ∀ {s s' path changes}, path.Canonical → P s →
      s.nest path = .ok (changes, s') → P s')
    (docs : List (String × Json)) (h : P s) : P (s.shred docs).2 := by
  have hnested : P (s.nestAll (demands (docs.map Prod.snd))).2 :=
    nestAll_keeps (fun hmem => hnest (canonical_of_demands hmem)) h
  unfold shred
  split
  next heq =>
    rw [heq] at hnested
    exact hnested
  next heq =>
    rw [heq] at hnested
    exact documents_keep hstore hobserve huid docs hnested

end

theorem Grown.keepsStored (h : s.Grown) : s.KeepsStored := by
  induction h with
  | empty fact => exact forall_mem_nil _
  | loaded stored => exact stored
  | timed clock h ih | saved h ih => exact ih
  | widened h add ih => exact keepsStored_addColumn ih add
  | nested h nest ih => exact keepsStored_nest ih nest
  | shredded docs h ih =>
    exact shred_keeps (fun _ _ _ h => keepsStored_ensureColumn h (storage_storage _))
      keepsStored_observeLength (fun h => h) (fun _ => keepsStored_nest) docs ih

section

variable {s : Snowflake}

theorem fact_ensureColumn (s : Snowflake) (path : Path) (type : DataType) :
    (s.ensureColumn path type).2.2.fact = s.fact := by
  unfold ensureColumn
  split <;> rfl

theorem fact_observeLength (s : Snowflake) (path : Path) (length : Nat) :
    (s.observeLength path length).fact = s.fact := by
  unfold observeLength
  split
  · rfl
  · split <;> rfl

theorem fact_nest {s' : Snowflake} {changes : List SchemaChange}
    (h : s.nest path = .ok (changes, s')) : s'.fact = s.fact := by
  have hnew : (s.nestNew path).2.fact = s.fact := fact_ensureColumn _ _ _
  unfold nest at h
  split at h
  · cases h
  · split at h
    · cases h
      rfl
    · rw [Except.ok.inj h] at hnew
      exact hnew

theorem fact_shred (s : Snowflake) (docs : List (String × Json)) : (s.shred docs).2.fact = s.fact :=
  shred_keeps (P := fun grown => grown.fact = s.fact)
    (fun _ _ _ h => (fact_ensureColumn _ _ _).trans h) (fun h => (fact_observeLength _ _ _).trans h)
    (fun h => h) (fun _ h hnest => (fact_nest hnest).trans h) docs rfl

end

end Snowflake

end Snowbank
