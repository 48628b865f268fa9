import Snowbank.Proofs.Snowflake.Record
import Snowbank.Proofs.Snowflake.Shredding

/-!
# Catalogs After a Restart

A catalog comes back from the records of its columns and from the greatest row
number of each table. The arrays are not stored: they come back from their
markers, of which every array has one. What is not stored otherwise, the marks
of changed columns and the time, has no part in what a catalog answers or in how
it changes. That is all in the layout of its columns.

## Main definitions

* `Dated`: Columns have times that can be stored.
* `restart`: A catalog from its records and greatest numbers.

## Theorems

* `Laid.nested_ofColumns`: The arrays come back from their markers.
* `restart_restores`: A catalog comes back as it was.
-/

namespace Snowbank.Snowflake

open List Column Ordered Snowflake
open Ordered (elems insert ofList)

theorem map_eq_of_slots {β : Type} {f g : Column → β}
    (hfg : ∀ {c d : Column}, d.slot = c.slot → g d = f c) {columns columns' : List Column}
    (h : columns'.map slot = columns.map slot) : columns'.map g = columns.map f := by
  induction columns generalizing columns' with
  | nil => rw [map_eq_nil_iff.1 h, map_nil, map_nil]
  | cons c rest ih =>
    obtain ⟨d, rest', rfl, hslot, hrest⟩ := map_eq_cons_iff.1 h
    rw [map_cons, map_cons, hfg hslot, ih hrest]

section

variable {s t : Snowflake} (h : SameLayout s t)

include h

variable {c d : Column}

theorem SameLayout.eq_with : t = { s with
    columns := t.columns, nextUid := t.nextUid, dirty := t.dirty, clock := t.clock } := by
  rw [← h.fact, ← h.nested]

theorem SameLayout.slot_place (hname : d.name = c.name) (htype : d.type = c.type) :
    (t.place d).slot = (s.place c).slot := by
  rw [h.eq_with]
  simp only [slot, place, hname, htype]
  rfl

theorem SameLayout.find? (path : Path) (type : DataType) :
    (t.find? path type).map slot = (s.find? path type).map slot := by
  have hslots : ∀ u : Snowflake, (u.find? path type).map slot =
      (u.columns.map slot).find? fun slot => slot.1 == path && slot.2.1 == type := by
    intro u
    rw [find?_map]
    rfl
  rw [hslots, hslots, h.slots]

theorem SameLayout.push (hslot : d.slot = c.slot) : SameLayout (s.push c) (t.push d) where
  fact := h.fact
  nested := h.nested
  slots := by
    change (t.columns ++ [d]).map slot = (s.columns ++ [c]).map slot
    rw [map_append, map_append, h.slots, map_singleton, map_singleton, hslot]

section

variable (path : Path)
include path

theorem SameLayout.ensureColumn (type : DataType) :
    (t.ensureColumn path type).1.slot = (s.ensureColumn path type).1.slot ∧
      (t.ensureColumn path type).2.1 = (s.ensureColumn path type).2.1 ∧
      SameLayout (s.ensureColumn path type).2.2 (t.ensureColumn path type).2.2 := by
  have hfind := h.find? path type
  unfold Snowflake.ensureColumn
  cases hs : s.find? path type with
  | some c =>
    cases ht : t.find? path type with
    | none =>
      rw [hs, ht] at hfind
      cases hfind
    | some d =>
      rw [hs, ht] at hfind
      exact ⟨Option.some.inj hfind, rfl, h⟩
  | none =>
    cases ht : t.find? path type with
    | some d =>
      rw [hs, ht] at hfind
      cases hfind
    | none =>
      have hslot : (t.newColumn path type).slot = (s.newColumn path type).slot :=
        h.slot_place rfl rfl
      simp only [slot, Prod.mk.injEq] at hslot
      dsimp only
      rw [hslot.2.2.1, hslot.2.2.2.2]
      exact ⟨h.slot_place rfl rfl, rfl, h.push (h.slot_place rfl rfl)⟩

/-- Columns beneath a path are put elsewhere alike, with the same moves. -/
theorem SameLayout.relocateAll (parent child : String) :
    (t.relocateAll path parent child).2 = (s.relocateAll path parent child).2 ∧
      SameLayout (s.relocateAll path parent child).1 (t.relocateAll path parent child).1 := by
  -- where a column goes depends on its slot and on the arrays alone
  have hcolumn : ∀ {c d : Column}, d.slot = c.slot →
      (t.relocate parent child d).1.slot = (s.relocate parent child c).1.slot ∧
        (t.relocate parent child d).2 = (s.relocate parent child c).2 := by
    intro c d hslot
    simp only [slot, Prod.mk.injEq] at hslot
    have hplace := h.slot_place hslot.1 hslot.2.1
    refine ⟨by rw [relocate_fst, relocate_fst, hplace], ?_⟩
    simp only [slot, Prod.mk.injEq] at hplace
    have hcondition : (d.isPhysical && d.table == parent && (t.place d).table == child) =
        (c.isPhysical && c.table == parent && (s.place c).table == child) := by
      simp [isPhysical, hslot, hplace]
    unfold relocate
    dsimp only
    rw [hcondition]
    split <;> simp [hslot, hplace]
  refine ⟨?_, h.fact, h.nested, ?_⟩
  · have hmoves : ∀ u : Snowflake, (u.relocateAll path parent child).2 =
        (u.columns.map fun c => if c.name.isUnder path then (u.relocate parent child c).2
          else none).filterMap id := by
      intro u
      rw [filterMap_map]
      exact filterMap_filter ..
    rw [hmoves, hmoves]
    refine congrArg _ (map_eq_of_slots (fun {c d} hslot => ?_) h.slots)
    rw [(hcolumn hslot).2, show d.name = c.name from congrArg Prod.fst hslot]
  · change ((t.columns.map _).map slot) = ((s.columns.map _).map slot)
    rw [map_map, map_map]
    refine map_eq_of_slots (fun {c d} hslot => ?_) h.slots
    rw [Function.comp_apply, Function.comp_apply, show d.name = c.name from congrArg Prod.fst hslot]
    split
    · exact (hcolumn hslot).1
    · exact hslot

theorem SameLayout.nestNew : (t.nestNew path).1 = (s.nestNew path).1 ∧
    SameLayout (s.nestNew path).2 (t.nestNew path).2 := by
  have htables : t.tableName path = s.tableName path ∧
      t.tableName (t.nestedPathOf path) = s.tableName (s.nestedPathOf path) ∧
      t.reparented path = s.reparented path := by
    rw [h.eq_with]
    exact ⟨rfl, rfl, rfl⟩
  have harray : SameLayout (s.withArray path) (t.withArray path) :=
    ⟨h.fact, congrArg (insertElem path) h.nested, h.slots⟩
  have hmoved : (t.relocated path).2 = (s.relocated path).2 ∧
      SameLayout (s.relocated path).1 (t.relocated path).1 := by
    unfold relocated
    rw [htables.1, htables.2.1]
    exact harray.relocateAll ..
  have hmarked : SameLayout (s.marked path) (t.marked path) :=
    hmoved.2.push (hmoved.2.slot_place rfl rfl)
  obtain ⟨hcounter, hadded, hmade⟩ := hmarked.ensureColumn path .presence
  have hphysical : ((t.marked path).ensureColumn path .presence).1.physical =
      ((s.marked path).ensureColumn path .presence).1.physical :=
    congrArg (fun slot => slot.2.2.2.2) hcounter
  refine ⟨?_, hmade⟩
  -- the steps of making an array, with the names for its stages
  have hsteps : ∀ u : Snowflake, (u.nestNew path).1 =
      .create (u.tableName path) (some (u.tableName (u.nestedPathOf path))) ::
        ((u.marked path).ensureColumn path .presence).2.1 ++
        (if (u.relocated path).2.isEmpty && (u.reparented path).isEmpty then []
        else [.nest (u.tableName (u.nestedPathOf path)) (u.tableName path)
          ((u.marked path).ensureColumn path .presence).1.physical (u.relocated path).2
          (u.reparented path)]) := fun _ => rfl
  rw [hsteps, hsteps, htables.1, htables.2.1, htables.2.2, hadded, hmoved.1, hphysical]

theorem SameLayout.nest : (∃ e, s.nest path = .error e ∧ t.nest path = .error e) ∨
      ∃ changes s' t', s.nest path = .ok (changes, s') ∧ t.nest path = .ok (changes, t') ∧
        SameLayout s' t' := by
  have hnested : t.isNested path = s.isNested path := by rw [isNested, isNested, h.nested]
  unfold Snowflake.nest
  rw [hnested]
  split_ifs
  · exact .inl ⟨_, rfl, rfl⟩
  · exact .inr ⟨_, _, _, rfl, rfl, h⟩
  · have hmade := h.nestNew path
    exact .inr ⟨(s.nestNew path).1, (s.nestNew path).2, (t.nestNew path).2, rfl, by rw [← hmade.1],
      hmade.2⟩

theorem SameLayout.addColumn (type : DataType) :
    (∃ e, s.addColumn path type = .error e ∧ t.addColumn path type = .error e) ∨
      ∃ c d changes s' t', s.addColumn path type = .ok (c, changes, s') ∧
        t.addColumn path type = .ok (d, changes, t') ∧ SameLayout s' t' := by
  have hensure : ∀ stored, ∃ c d changes s' t', s.ensureColumn path stored = (c, changes, s') ∧
      t.ensureColumn path stored = (d, changes, t') ∧ SameLayout s' t' := by
    intro stored
    have hmade := h.ensureColumn path stored
    exact ⟨_, _, (s.ensureColumn path stored).2.1, _, _, rfl, by rw [← hmade.2.1], hmade.2.2⟩
  have hnested : t.isNested path = s.isNested path := by rw [isNested, isNested, h.nested]
  unfold Snowflake.addColumn
  split
  · rcases h.nest path with ⟨e, hs, ht⟩ | ⟨changes, s', t', hs, ht, hmade⟩
    · rw [hs, ht]
      exact Or.inl ⟨e, rfl, rfl⟩
    · have hmarker := hmade.find? path .nested
      simp only [hs, ht, bind, Except.bind]
      cases hfound : s'.find? path .nested with
      | none =>
        rw [hfound] at hmarker
        rw [Option.map_eq_none_iff.1 hmarker]
        exact .inl ⟨_, rfl, rfl⟩
      | some c =>
        rw [hfound] at hmarker
        obtain ⟨d, hd, -⟩ := Option.map_eq_some_iff.1 hmarker
        rw [hd]
        exact Or.inr ⟨c, d, changes, s', t', rfl, rfl, hmade⟩
  · rw [hnested]
    split
    · obtain ⟨c, d, changes, s', t', hs, ht, hmade⟩ := hensure .presence
      exact Or.inr ⟨c, d, changes, s', t', congrArg _ hs, congrArg _ ht, hmade⟩
    · exact .inl ⟨_, rfl, rfl⟩
  · obtain ⟨c, d, changes, s', t', hs, ht, hmade⟩ := hensure type.storage
    exact .inr ⟨c, d, changes, s', t', congrArg _ hs, congrArg _ ht, hmade⟩

end

end

section

variable {s t : Snowflake}

/-- The request, whenever it is made. -/
def Request.untimed : Request → Request
  | column _ path type => column 0.0 path type
  | array _ path => array 0.0 path

/-- The changes that a request makes, or why it is refused. -/
def changes (s : Snowflake) : Request → Except SchemaError (List SchemaChange)
  | .column clock path type => do
    let (_, changes, _) ← { s with clock }.addColumn path type
    return changes
  | .array clock path => do
    let (changes, _) ← { s with clock }.nest path
    return changes

/-- The changes that requests make, one after the other. -/
def changesOf (s : Snowflake) : List Request → List (Except SchemaError (List SchemaChange))
  | [] => []
  | request :: rest => s.changes request :: (s.ask request).changesOf rest

/-- The time of a request has no part in its changes. -/
theorem SameLayout.ask (h : SameLayout s t) {request request' : Request}
    (hsame : request'.untimed = request.untimed) :
    t.changes request' = s.changes request ∧ SameLayout (s.ask request) (t.ask request') := by
  have htimed : ∀ clock clock' : Float, SameLayout { s with clock } { t with clock := clock' } :=
    fun _ _ => ⟨h.fact, h.nested, h.slots⟩
  cases request with
  | column clock path type =>
    cases request' with
    | array => cases hsame
    | column clock' path' type' =>
      cases hsame
      simp only [changes, Snowflake.ask]
      rcases (htimed clock clock').addColumn path type with
        ⟨e, hs, ht⟩ | ⟨c, d, made, s', t', hs, ht, hmade⟩
      · rw [hs, ht]
        exact ⟨rfl, h⟩
      · rw [hs, ht]
        exact ⟨rfl, hmade⟩
  | array clock path =>
    cases request' with
    | column => cases hsame
    | array clock' path' =>
      cases hsame
      simp only [changes, Snowflake.ask]
      rcases (htimed clock clock').nest path with ⟨e, hs, ht⟩ | ⟨made, s', t', hs, ht, hmade⟩
      · rw [hs, ht]
        exact ⟨rfl, h⟩
      · rw [hs, ht]
        exact ⟨rfl, hmade⟩

theorem SameLayout.changesOf (h : SameLayout s t) {requests requests' : List Request}
    (hsame : requests'.map Request.untimed = requests.map Request.untimed) :
    t.changesOf requests' = s.changesOf requests := by
  induction requests generalizing s t requests' with
  | nil =>
    rw [map_eq_nil_iff.1 hsame]
    rfl
  | cons request rest ih =>
    obtain ⟨request', rest', rfl, hfirst, hrest⟩ := map_eq_cons_iff.1 hsame
    have hstep := h.ask hfirst
    rw [changesOf, changesOf, hstep.1, ih hstep.2 hrest]

end

section

variable {s : Snowflake}

/-- Columns have times that can be stored, and so has what changes next. -/
structure Dated (s : Snowflake) : Prop where
  clock : s.clock.isFinite
  columns : ∀ c ∈ s.columns, c.partitions = none ∧ c.lastUpdated.isFinite

theorem Dated.push (h : s.Dated) (path : Path) (type : DataType) :
    (s.push (s.newColumn path type)).Dated where
  clock := h.clock
  columns := by
    intro c hc
    rcases mem_append.1 hc with hc | hc
    · exact h.columns c hc
    · rw [mem_singleton.1 hc]
      exact ⟨rfl, h.clock⟩

theorem Dated.relocated (h : s.Dated) (path : Path) : (s.relocated path).1.Dated where
  clock := h.clock
  columns := by
    intro c hc
    rw [columns_relocated] at hc
    obtain ⟨d, hd, rfl⟩ := mem_map.1 hc
    split_ifs
    · exact ⟨(h.columns d hd).1, h.clock⟩
    · exact h.columns d hd

theorem Dated.observeLength (h : s.Dated) (path : Path) (length : Nat) :
    (s.observeLength path length).Dated := by
  unfold Snowflake.observeLength
  split
  · exact h
  next c hfound =>
    split
    · refine ⟨h.clock, fun d hd => ?_⟩
      rcases mem_replaceColumn hd with rfl | hd
      · exact ⟨(h.columns c (of_find? hfound).1).1, h.clock⟩
      · exact h.columns d hd
    · exact h

theorem Dated.step {s' : Snowflake} (_ : s.Laid) (hstep : Step s s') (h : s.Dated) : s'.Dated := by
  cases hstep with
  | numbered nextUid => exact ⟨h.clock, h.columns⟩
  | column => exact h.push _ _
  | array => exact ((h.relocated _).push _ _).push _ _
  | length path length => exact h.observeLength path length

theorem Dated.grow (hs : s.Laid) (h : s.Dated) {growths : List Growth}
    (hfit : ∀ growth ∈ growths, growth.Fit ∧ growth.clock.isFinite) :
    (growths.foldl grow s).Laid ∧ (growths.foldl grow s).Dated := by
  induction growths generalizing s with
  | nil => exact ⟨hs, h⟩
  | cons growth rest ih =>
    obtain ⟨hgrowth, hclock⟩ := hfit growth mem_cons_self
    have hgrown := hs.grow_keeps Dated.step hgrowth h ⟨hclock, h.columns⟩
    exact ih hgrown.1 hgrown.2 fun g hg => hfit g (.tail _ hg)

end

section

variable {fact : String} {columns : List Column} {maxUids : List (String × Int)}

/-- Rows of a table are numbered on from the greatest number, or from one. -/
theorem get?_nextUid_ofColumns {table : String}
    (htable : table ∈ (ofColumns fact columns maxUids).tables) :
    Ordered.get? table (ofColumns fact columns maxUids).nextUid =
      some (((Ordered.get? table (ofList maxUids)).map (· + 1)).getD 1) := by
  -- what is known of the table after some of the greatest numbers
  have hknown : ∀ (given : List (String × Int)) (known greatest : List (String × Int)),
      Ordered.get? table known = ((Ordered.get? table greatest).map (· + 1)).or
        (Ordered.get? table [(fact, 1)]) →
      Ordered.get? table (given.foldl (fun uids entry => insert entry.1 (entry.2 + 1) uids) known) =
        ((Ordered.get? table (given.foldl (fun map entry => insert entry.1 entry.2 map)
          greatest)).map (· + 1)).or (Ordered.get? table [(fact, 1)]) := by
    intro given
    induction given with
    | nil => exact fun _ _ h => h
    | cons entry rest ih =>
      intro known greatest h
      refine ih _ _ ?_
      rw [Ordered.get?_insert, Ordered.get?_insert]
      split_ifs
      · rfl
      · exact h
  -- a table that is not known begins with one
  have hfilled : ∀ (tables : List String) (known : List (String × Int)),
      Ordered.get? table (tables.foldl (fun uids table => if Ordered.contains table uids then uids
        else insert table 1 uids) known) =
        (Ordered.get? table known).or (if table ∈ tables then some 1 else none) := by
    intro tables
    induction tables with
    | nil => exact fun known => (Option.or_none).symm
    | cons first rest ih =>
      intro known
      rw [foldl_cons, ih]
      by_cases hfirst : table = first
      · subst hfirst
        cases hmem : Ordered.get? table known <;> simp [Ordered.contains, hmem]
      · have hother : Ordered.get? table (insert first 1 known) = Ordered.get? table known :=
          Ordered.get?_insert_of_ne hfirst _ _
        simp only [mem_cons, hfirst, false_or]
        split_ifs <;> simp [hother]
  have hgiven := hknown maxUids [(fact, 1)] [] rfl
  have hone : (Ordered.get? table [(fact, (1 : Int))]).or (some 1) = some 1 := by
    rw [Ordered.get?]
    split <;> rfl
  change Ordered.get? table ((ofColumns fact columns maxUids).tables.foldl _ _) = _
  rw [hfilled, if_pos htable, hgiven, Option.or_assoc, hone]
  change ((Ordered.get? table (ofList maxUids)).map _).or (some 1) = _
  cases (Ordered.get? table (ofList maxUids)) <;> rfl

end

section

variable {s : Snowflake}

theorem eq_of_increasing {xs ys : List Path} (hxs : Ordered.Increasing xs)
    (hys : Ordered.Increasing ys) (h : ∀ x, x ∈ xs ↔ x ∈ ys) : xs = ys := by
  refine ((perm_ext_iff_of_nodup hxs.nodup hys.nodup).2 h).eq_of_pairwise ?_ hxs hys
  intro a b _ _ hab hba
  have hswap : compare a b = (compare b a).swap := Std.OrientedCmp.eq_swap
  rw [hab, hba] at hswap
  cases hswap

theorem Laid.nested_ofColumns (hs : s.Laid) (maxUids : List (String × Int)) :
    (ofColumns s.fact s.columns maxUids).nested = s.nested := by
  refine eq_of_increasing (increasing_elems _) hs.increasing fun path => ?_
  change path ∈ elems _ ↔ _
  rw [mem_elems, hs.marked, mem_labels]
  simp [isPhysical, and_comm, and_assoc]

/-- A catalog from its records and the greatest number of a row of each table. -/
def restart (s : Snowflake) (maxUids : List (String × Int)) : Except SchemaError Snowflake := do
  let columns ← (s.columns.map toRecord).mapM ofRecord
  return ofColumns s.fact columns maxUids

theorem Laid.restart_eq (hs : s.Laid) (hdates : s.Dated) (maxUids : List (String × Int)) :
    s.restart maxUids = .ok (ofColumns s.fact s.columns maxUids) := by
  have hcolumn : ∀ c ∈ s.columns, ofRecord c.toRecord = .ok c := by
    intro c hc
    refine ofRecord_toRecord ?_ (hdates.columns c hc).1 (hdates.columns c hc).2
    rw [(hs.stands c hc).nestedPath, nestedPathList]
    simp
  have hall : ∀ columns : List Column, (∀ c ∈ columns, ofRecord c.toRecord = .ok c) →
      (columns.map toRecord).mapM ofRecord = .ok columns := by
    intro columns
    induction columns with
    | nil => exact fun _ => rfl
    | cons c rest ih =>
      intro h
      rw [map_cons, mapM_cons, h c mem_cons_self, ih fun d hd => h d (.tail _ hd)]
      rfl
  rw [restart, hall s.columns hcolumn]
  rfl

/-- A catalog comes back from its records as it was: the same columns, arrays
    and tables, the same answers, rows numbered on from the greatest, and every
    later request makes the same changes, whenever it is made. -/
theorem restart_restores (fact : String) (growths : List Growth)
    (hfit : ∀ growth ∈ growths, growth.Fit ∧ growth.clock.isFinite = true)
    (maxUids : List (String × Int)) :
    let s := growths.foldl grow (empty fact)
    ∃ t, s.restart maxUids = .ok t ∧ t.columns = s.columns ∧ t.nested = s.nested ∧
      t.tables = s.tables ∧
      (∀ path, t.typesAt path = s.typesAt path ∧ t.isNested path = s.isNested path ∧
        t.nestedPathOf path = s.nestedPathOf path ∧ t.hasDescendants path = s.hasDescendants path) ∧
      (∀ table ∈ t.tables, Ordered.get? table t.nextUid =
        some (((Ordered.get? table (Ordered.ofList maxUids)).map (· + 1)).getD 1)) ∧
      ∀ requests requests', requests'.map Request.untimed = requests.map Request.untimed →
        t.changesOf requests' = s.changesOf requests := by
  intro s
  have hzero : (0.0 : Float).isFinite = true := by decide
  rcases Dated.grow (laid_empty fact) ⟨hzero, List.forall_mem_nil _⟩ hfit with
    ⟨hlaid, hdates⟩
  have hsame : SameLayout s (ofColumns s.fact s.columns maxUids) :=
    ⟨rfl, hlaid.nested_ofColumns maxUids, rfl⟩
  refine ⟨_, hlaid.restart_eq hdates maxUids, rfl, hsame.nested, ?_, fun path => ⟨rfl, ?_, ?_, rfl⟩,
    fun _ htable => get?_nextUid_ofColumns htable, fun _ _ h => hsame.changesOf h⟩
  all_goals rw [hsame.eq_with]; rfl

/-- An array of objects below a key with a quote and a line break, and an array
    without an element. -/
def quoted : List Growth := [.documents 1.5 [("u", .obj [("a\"\n", .arr [.obj [("b", .nat 1)]])])],
    .ask (.array 2.5 "c"), .ask (.column 3.5 "c.d" .string)]

theorem restart_restores_quoted :
    (∀ growth ∈ quoted, growth.Fit ∧ growth.clock.isFinite = true) ∧
      ∃ t, (quoted.foldl grow (empty "t")).restart [("t", 7)] = .ok t ∧
        t.nested = (quoted.foldl grow (empty "t")).nested ∧
        t.changesOf [.array 9.0 "c.d"] =
          (quoted.foldl grow (empty "t")).changesOf [.array 4.0 "c.d"] := by
  have hfit : ∀ growth ∈ quoted, growth.Fit ∧ growth.clock.isFinite = true := by decide +kernel
  refine ⟨hfit, (restart_restores "t" quoted hfit [("t", 7)]).imp fun t h => ?_⟩
  have huntimed : [Request.array 9.0 "c.d"].map Request.untimed =
      [Request.array 4.0 "c.d"].map Request.untimed := by simp [List.map, Request.untimed]
  exact ⟨h.1, h.2.2.1, h.2.2.2.2.2.2 _ _ huntimed⟩

end

end Snowbank.Snowflake
