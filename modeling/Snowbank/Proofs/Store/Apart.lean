import Snowbank.Proofs.Store.Insert

/-!
# Tables of Different Facts

The table of an array has the name of the fact, a dot and the path of the
array. So two facts can only meet in a table where the name of one goes on,
after a dot, from the name of the other, and apart from that nothing that is
inserted brings them together.

## Main definitions

* `Continues`: The text is the other one, a dot, and more.

## Theorems

* `tables_apart`: Facts with other names have no table in common.
-/

namespace Snowbank

open List

/-- The text is the other one, a dot, and more. -/
def Continues (text other : String) : Prop := ∃ more, text = other ++ "." ++ more

theorem continues_of_append_eq {f g p q : String} (hne : f ≠ g)
    (h : f ++ "." ++ p = g ++ "." ++ q) : Continues f g ∨ Continues g f := by
  -- the shorter name ends where the longer one has a dot
  have hlonger : ∀ {x y : String} {rest tail tail' : List Char}, x ≠ y →
      y.toList = x.toList ++ rest → '.' :: tail = rest ++ '.' :: tail' → Continues y x := by
    intro x y rest tail tail' hne hy hrest
    cases rest with
    | nil => exact absurd (String.toList_inj.1 (hy.trans (append_nil _))).symm hne
    | cons c rest =>
      obtain rfl : '.' = c := (List.cons.inj hrest).1
      exact ⟨String.ofList rest, String.toList_inj.1 (by simp [hy])⟩
  have hlists := congrArg String.toList h
  simp only [String.toList_append, append_assoc] at hlists
  rcases append_eq_append_iff.1 hlists with ⟨rest, hg, htail⟩ | ⟨rest, hf, htail⟩
  · exact .inr (hlonger hne hg htail)
  · exact .inl (hlonger hne.symm hf htail)

namespace Snowflake

variable {s t : Snowflake} {table : String}

theorem eq_or_continues_of_mem_tables (h : table ∈ s.tables) :
    table = s.fact ∨ ∃ path, table = s.fact ++ "." ++ path := by
  rcases mem_cons.1 h with rfl | h
  · exact .inl rfl
  · obtain ⟨path, -, rfl⟩ := mem_map.1 h
    unfold tableName
    split
    · exact .inl rfl
    · exact .inr ⟨path, rfl⟩

/-- Facts that have a table in common have names of which one continues the other. -/
theorem continues_of_shared (hne : s.fact ≠ t.fact) (hs : table ∈ s.tables)
    (ht : table ∈ t.tables) : Continues s.fact t.fact ∨ Continues t.fact s.fact := by
  rcases eq_or_continues_of_mem_tables hs with hs | ⟨p, hs⟩ <;>
    rcases eq_or_continues_of_mem_tables ht with ht | ⟨q, ht⟩
  · exact absurd (hs.symm.trans ht) hne
  · exact .inl ⟨q, hs.symm.trans ht⟩
  · exact .inr ⟨p, ht.symm.trans hs⟩
  · exact continues_of_append_eq hne (hs.symm.trans ht)

end Snowflake

namespace Database

variable {σ : Type} {b : Backend σ} {db : Database σ}

/-- The database after documents have been inserted into facts, one batch after the other. -/
def insertAll (b : Backend σ) (db : Database σ) (batches : List (String × List Json)) :
    Database σ :=
  batches.foldl (fun db batch => (db.request b (.insert batch.1 batch.2)).2) db

/-- The database is idle and keeps every snowflake under its own name. -/
structure Orderly (db : Database σ) : Prop where
  idle : db.Idle
  named : db.catalog.Named

theorem Orderly.insert (h : db.Orderly) (fact : String) (docs : List Json) :
    (db.request b (.insert fact docs)).2.Orderly := by
  rw [request_insert h.idle fact docs, Insertion.prepare_eq]
  have hfact := Snowflake.fact_shred (db.catalog.startOf db.clock fact) (db.withIds docs)
  generalize (db.catalog.startOf db.clock fact).shred (db.withIds docs) = made at hfact
  obtain ⟨result, grown⟩ := made
  cases result with
  | error e => exact ⟨idle_refused h.idle.noTasks h.idle.noWriters, h.named⟩
  | ok shredded =>
    dsimp only
    split
    · exact ⟨idle_inserted h.idle.noTasks h.idle.noWriters,
        (Catalog.takes_publish db.catalog grown).named h.named⟩
    · exact ⟨idle_refused h.idle.noTasks h.idle.noWriters, h.named⟩

theorem Orderly.insertAll (h : db.Orderly) (batches : List (String × List Json)) :
    (db.insertAll b batches).Orderly := by
  induction batches generalizing db with
  | nil => exact h
  | cons batch rest ih => exact ih (h.insert batch.1 batch.2)

theorem orderly_ofStore (store : σ) (clock : Float) : (ofStore store .empty clock).Orderly where
  idle := ⟨rfl, rfl, rfl, rfl, rfl⟩
  named _ _ h := by cases h

/-- Whatever is inserted into whatever facts, and whatever the store does with
    it: two facts have no table in common, unless the name of one of them is
    that of the other with a dot and more behind it. -/
theorem tables_apart (b : Backend σ) (store : σ) (clock : Float)
    (batches : List (String × List Json)) {f g : String} {s t : Snowflake}
    (hs : ((ofStore store .empty clock).insertAll b batches).catalog.snapshot? f = some s)
    (ht : ((ofStore store .empty clock).insertAll b batches).catalog.snapshot? g = some t)
    (hne : f ≠ g) (hf : ¬Continues f g) (hg : ¬Continues g f) :
    ∀ table ∈ s.tables, table ∉ t.tables := by
  have hnamed := ((orderly_ofStore store clock).insertAll (b := b) batches).named
  obtain rfl : s.fact = f := hnamed f s hs
  obtain rfl : t.fact = g := hnamed g t ht
  intro table hmem hshared
  rcases Snowflake.continues_of_shared hne hmem hshared with h | h
  · exact hf h
  · exact hg h

/-- A store that takes every statement. -/
def willing : Backend Unit where
  openAt _ store := (.ok (), store)
  batch _ store := (.ok (), store)
  execute _ _ store := (.ok (), store)
  query _ _ store := (.ok [], store)

/-- A database after two insertions into facts of which one has a name that
    begins like that of the other. -/
def neighbours : Database Unit := (ofStore () .empty 0.0).insertAll willing
    [("a", [.obj [("b", .arr [.obj [("c", .int 1)]])]]), ("ab", [.obj [("c", .arr [.int 2])]])]

theorem tables_apart_neighbours :
    ∃ s t, neighbours.catalog.snapshot? "a" = some s ∧
      neighbours.catalog.snapshot? "ab" = some t ∧ ¬Continues "a" "ab" ∧ ¬Continues "ab" "a" ∧
      ∀ table ∈ s.tables, table ∉ t.tables := by
  have hfound : (neighbours.catalog.snapshot? "a").isSome = true ∧
      (neighbours.catalog.snapshot? "ab").isSome = true := by
    have hstart := orderly_ofStore () 0.0
    rw [neighbours, insertAll, List.foldl_cons, List.foldl_cons, List.foldl_nil,
      request_insert (hstart.insert _ _).idle, request_insert hstart.idle]
    decide +kernel
  have hf : ¬Continues "a" "ab" := by
    rintro ⟨more, h⟩
    simpa using congrArg String.toList h
  have hg : ¬Continues "ab" "a" := by
    rintro ⟨more, h⟩
    simpa using congrArg String.toList h
  rcases Option.isSome_iff_exists.mp hfound.1 with ⟨s, hs⟩
  rcases Option.isSome_iff_exists.mp hfound.2 with ⟨t, ht⟩
  exact ⟨s, t, hs, ht, hf, hg, tables_apart _ _ _ _ hs ht (by decide) hf hg⟩

end Database

end Snowbank
