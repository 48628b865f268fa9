import Mathlib.Data.List.Perm.Basic
import Snowbank.Proofs.Store.Catalog

/-!
# Writing the Records of Columns

Versions of columns are published, taken in flushes and written by a worker
that takes one flush after the other. Several flushes can be on their way at
once. A flush that fails is put back later, and then only what is queued at
that moment is looked at.

Putting a flush back keeps the last versions as long as the flush does not bring
back one that is outdated: where a newer version has been taken by another
flush, nothing is queued that would stop the older one, and it is written over
the newer.

## Main definitions

* `Timely`: A flush that is put back holds no outdated version.
* `Sound`: The last version of a column is queued, or on its way in the last
  flush with the column, or written, or in a flush that has failed.

## Theorems

* `Sound.step`: That is kept by every step.
* `last_published_is_written`: At rest the last version is written.
-/

namespace Snowbank

open List Option Ordered Std.LawfulEqCmp Column

instance : Std.TransOrd ColumnKey := by
  have hlex : (compare : ColumnKey → ColumnKey → Ordering) = compareLex (compareOn ColumnKey.fact)
      (compareLex (compareOn ColumnKey.name) (compareOn ColumnKey.type)) := by
    funext a b
    simp [ColumnKey.compare_eq, compareLex, compareOn]
  unfold Std.TransOrd
  rw [hlex]
  infer_instance

theorem Ordered.map_fst_insert {κ α : Type} [Ord κ] [Std.LawfulEqOrd κ] (key : κ) (value : α)
    (entries : List (κ × α)) :
    (insert key value entries).map Prod.fst = insertElem key (entries.map Prod.fst) := by
  induction entries with
  | nil => rfl
  | cons entry rest ih =>
    rw [insert, map_cons, insertElem]
    cases horder : compare key entry.1 with
    | lt => rfl
    | eq =>
      have hkey : key = entry.1 := eq_of_compare horder
      simp [hkey]
    | gt => simp [ih]

namespace Catalog

variable {pending : List (ColumnKey × Column)}

/-- Columns are queued under their own keys, and each key stands once. -/
structure Keyed (pending : List (ColumnKey × Column)) : Prop where
  increasing : Ordered.Increasing (pending.map Prod.fst)
  own : ∀ entry ∈ pending, entry.1 = entry.2.key

theorem Keyed.insert (h : Keyed pending) (c : Column) : Keyed (insert c.key c pending) where
  increasing := by
    rw [map_fst_insert]
    exact increasing_insertElem h.increasing
  own := by
    intro entry hentry
    rcases mem_insert hentry with rfl | hentry
    · rfl
    · exact h.own entry hentry

theorem Keyed.queue (h : Keyed pending)
    (columns : List Column) : Keyed (queue columns pending) := by
  induction columns generalizing pending with
  | nil => exact h
  | cons c rest ih => exact ih (h.insert c)

theorem Keyed.requeue {c : Catalog} (h : Keyed c.pending) (columns : List Column) :
    Keyed (c.requeue columns).pending := by
  unfold Catalog.requeue
  induction columns generalizing c with
  | nil => exact h
  | cons col rest ih =>
    rw [foldl_cons]
    split
    · exact ih h
    · exact ih (c := { c with pending := _ }) (h.insert col)

/-- What is queued stays, and of the columns put back the first with a key that is not queued is. -/
theorem get?_requeue (c : Catalog) (columns : List Column) (key : ColumnKey) :
    Ordered.get? key (c.requeue columns).pending =
      (Ordered.get? key c.pending).or (columns.find? fun col => col.key = key) := by
  unfold requeue
  generalize c.pending = pending
  induction columns generalizing pending with
  | nil => exact (or_none).symm
  | cons col rest ih =>
    rw [foldl_cons, ih, find?_cons]
    by_cases hkey : col.key = key
    · subst hkey
      cases hqueued : Ordered.get? col.key pending <;>
        simp [Ordered.contains, hqueued]
    · have hother : ∀ value, Ordered.get? key (Ordered.insert col.key value pending) =
          Ordered.get? key pending := fun value =>
        Ordered.get?_insert_of_ne (Ne.symm hkey) value pending
      split <;> simp [hkey, hother]

end Catalog

/-- The last version of a column among versions of columns. -/
def lastOf (key : ColumnKey) (versions : List Column) : Option Column :=
  versions.reverse.find? fun c => c.key = key

theorem lastOf_append (key : ColumnKey) (earlier later : List Column) :
    lastOf key (earlier ++ later) = (lastOf key later).or (lastOf key earlier) := by
  rw [lastOf, reverse_append, find?_append]
  rfl

theorem lastOf_mem {key : ColumnKey} {versions : List Column} {c : Column}
    (h : lastOf key versions = some c) : c ∈ versions ∧ c.key = key :=
  ⟨mem_reverse.1 (mem_of_find?_eq_some h), by simpa using find?_some h⟩

/-- Taking the queue takes the version queued under each key. -/
theorem Catalog.Keyed.lastOf {pending : List (ColumnKey × Column)} (h : Keyed pending)
    (key : ColumnKey) : lastOf key (pending.map Prod.snd) = get? key pending := by
  induction pending with
  | nil => rfl
  | cons entry rest ih =>
    obtain ⟨k, c⟩ := entry
    have hrest := ih ⟨h.increasing.of_cons, fun e he => h.own e (.tail _ he)⟩
    have hk : k = c.key := h.own (k, c) mem_cons_self
    have hone : Snowbank.lastOf key [c] = if c.key = key then some c else none := by
      rw [Snowbank.lastOf, reverse_singleton, find?_singleton]
      simp
    rw [map_cons, ← singleton_append, lastOf_append, hrest, hone, get?, hk]
    by_cases hkey : c.key = key
    · have hnone : get? key rest = none := by
        refine eq_none_iff_forall_ne_some.2 fun d hd => ?_
        have hmem : key ∈ rest.map Prod.fst := mem_map_of_mem (mem_of_get? hd)
        -- the key would stand twice
        exact (nodup_cons.1 h.increasing.nodup).1 ((hk.trans hkey) ▸ hmem)
      have hself : compare key key = .eq := Std.ReflCmp.compare_self
      rw [hnone, if_pos hkey, hkey, hself]
      rfl
    · rw [if_neg hkey, or_none]
      split
      next heq => exact absurd (eq_of_compare heq).symm hkey
      · rfl

/-- A catalog whose columns are written by flushes. -/
structure Flushing where
  catalog : Catalog
  /-- The flushes that wait for the worker, the next one first. -/
  running : List (List Column)
  /-- The flushes that have failed and are not yet put back. -/
  refused : List (List Column)
  /-- The versions written, and those published, in this order. -/
  written : List Column
  published : List Column

namespace Flushing

/-- Nothing has happened yet. -/
def empty : Flushing := ⟨.empty, [], [], [], []⟩

/-- What can happen: a version of a snowflake is published, a flush is taken, the worker writes the
    next one or fails to, and one of those that failed is put back. -/
inductive Event where
  | publish (s : Snowflake)
  | take
  | succeed
  | fail
  | requeue (position : Nat)

/-- What happens then. -/
def step (f : Flushing) : Event → Flushing
  | .publish s =>
    { f with catalog := f.catalog.publish s, published := f.published ++ s.takeDirty.1 }
  | .take =>
    { f with
      catalog := f.catalog.takePending.2, running := f.running ++ [f.catalog.takePending.1] }
  | .succeed =>
    match f.running with
    | [] => f
    | flush :: rest => { f with running := rest, written := f.written ++ flush }
  | .fail =>
    match f.running with
    | [] => f
    | flush :: rest => { f with running := rest, refused := f.refused ++ [flush] }
  | .requeue position =>
    match f.refused[position]? with
    | none => f
    | some flush =>
      { f with catalog := f.catalog.requeue flush, refused := f.refused.eraseIdx position }

/-- A flush that is put back holds no outdated version of a column, unless a newer one is queued. -/
def Timely (f : Flushing) : Event → Prop
  | .requeue position => ∀ flush, f.refused[position]? = some flush → ∀ c ∈ flush,
      lastOf c.key f.published = some c ∨ contains c.key f.catalog.pending
  | _ => True

/-- The same for all that happens, one after the other. -/
def TimelyRun (f : Flushing) : List Event → Prop
  | [] => True
  | event :: rest => f.Timely event ∧ (f.step event).TimelyRun rest

/-- The version of a column that is to be written last. -/
def waiting (f : Flushing) (key : ColumnKey) : Option Column :=
  (get? key f.catalog.pending).or (lastOf key f.running.flatten)

/-- What is to be written last is the last version; where nothing is to be
    written that has been done, or a flush that failed holds the version. -/
structure Sound (f : Flushing) : Prop where
  keyed : Catalog.Keyed f.catalog.pending
  latest : ∀ key c, f.waiting key = some c → lastOf key f.published = some c
  settled : ∀ key, f.waiting key = none → lastOf key f.written = lastOf key f.published ∨
    ∃ flush ∈ f.refused, ∃ c ∈ flush, lastOf key f.published = some c

theorem sound_empty : empty.Sound where
  keyed := ⟨Pairwise.nil, forall_mem_nil _⟩
  latest := fun _ _ h => by cases h
  settled := fun _ _ => .inl rfl

section

variable {f : Flushing} (h : f.Sound)

include h

theorem Sound.publish (s : Snowflake) : (f.step (.publish s)).Sound := by
  have hwaiting : ∀ key, (f.step (.publish s)).waiting key =
      (lastOf key s.takeDirty.1).or (f.waiting key) := by
    intro key
    rw [waiting, waiting, ← Option.or_assoc]
    exact congrArg (Option.or · _) ((f.catalog.takes_publish s).queued key)
  have hpublished : ∀ key, lastOf key (f.step (.publish s)).published =
      (lastOf key s.takeDirty.1).or (lastOf key f.published) := fun key => lastOf_append key _ _
  refine ⟨h.keyed.queue _, fun key c hc => ?_, fun key hnone => ?_⟩
  · rw [hwaiting] at hc
    rw [hpublished]
    cases hdirty : lastOf key s.takeDirty.1 with
    | none =>
      rw [hdirty] at hc
      exact h.latest key c hc
    | some d =>
      rw [hdirty] at hc
      exact hc
  · rw [hwaiting, or_eq_none_iff] at hnone
    rw [hpublished, hnone.1]
    exact h.settled key hnone.2

theorem Sound.take : (f.step .take).Sound := by
  have hwaiting : ∀ key, (f.step .take).waiting key = f.waiting key := by
    intro key
    change or none (lastOf key (f.running ++ [f.catalog.pending.map Prod.snd]).flatten) = _
    rw [flatten_append, flatten_singleton, lastOf_append, h.keyed.lastOf]
    rfl
  refine ⟨sound_empty.keyed, fun key c hc => ?_, fun key hnone => ?_⟩
  · exact h.latest key c (hwaiting key ▸ hc)
  · exact h.settled key (hwaiting key ▸ hnone)

omit h in
/-- The worker takes a flush: nothing that is to be written after it changes,
    and where it held the version to be written last, that is the last one. -/
theorem waiting_worker {flush : List Column} {rest : List (List Column)}
    (hrunning : f.running = flush :: rest) {key : ColumnKey} :
    (∀ c, { f with running := rest }.waiting key = some c → f.waiting key = some c) ∧
      ({ f with running := rest }.waiting key = none → f.waiting key = lastOf key flush) := by
  have hwaiting : f.waiting key = ({ f with running := rest }.waiting key).or
    (lastOf key flush) := by
    rw [waiting, waiting, hrunning, flatten_cons, lastOf_append, Option.or_assoc]
  rw [hwaiting]
  exact ⟨fun c hc => by rw [hc, some_or], fun hnone => by rw [hnone, none_or]⟩

theorem Sound.succeed : (f.step .succeed).Sound := by
  unfold step
  dsimp only
  split
  · exact h
  next flush rest hrunning =>
    refine ⟨h.keyed, fun key c hc => h.latest key c ((waiting_worker hrunning).1 c hc),
      fun key hnone => ?_⟩
    have hwas := (waiting_worker hrunning).2 hnone
    rw [lastOf_append]
    cases hflush : lastOf key flush with
    | some c => exact .inl (h.latest key c (hwas.trans hflush)).symm
    | none => exact h.settled key (hwas.trans hflush)

theorem Sound.fail : (f.step .fail).Sound := by
  unfold step
  dsimp only
  split
  · exact h
  next flush rest hrunning =>
    refine ⟨h.keyed, fun key c hc => h.latest key c ((waiting_worker hrunning).1 c hc),
      fun key hnone => ?_⟩
    have hwas := (waiting_worker hrunning).2 hnone
    cases hflush : lastOf key flush with
    | some c =>
      exact .inr ⟨flush, mem_append_right _ mem_cons_self, c, (lastOf_mem hflush).1,
        h.latest key c (hwas.trans hflush)⟩
    | none =>
      refine (h.settled key (hwas.trans hflush)).imp_right ?_
      rintro ⟨other, hother, hc⟩
      exact ⟨other, mem_append_left _ hother, hc⟩

theorem Sound.requeue {position : Nat} (htimely : f.Timely (.requeue position)) :
    (f.step (.requeue position)).Sound := by
  unfold step
  dsimp only
  split
  · exact h
  next flush hposition =>
    have hback := htimely flush hposition
    have hfound : ∀ key c, flush.find? (fun col => col.key = key) = some c →
        c ∈ flush ∧ c.key = key := fun key c hc =>
      ⟨mem_of_find?_eq_some hc, by simpa using find?_some hc⟩
    refine ⟨h.keyed.requeue flush, fun key c hc => ?_, fun key hnone => ?_⟩
    · rw [waiting, f.catalog.get?_requeue] at hc
      cases hqueued : get? key f.catalog.pending with
      | some d =>
        -- what is queued stays in front of what is put back
        refine h.latest key c ?_
        rw [hqueued] at hc
        rw [waiting, hqueued]
        exact hc
      | none =>
        cases hput : flush.find? (fun col => col.key = key) with
        | some d =>
          obtain ⟨hd, rfl⟩ := hfound key d hput
          rw [hqueued, hput] at hc
          have heq : d = c := some.inj hc
          rw [← heq]
          refine (hback d hd).resolve_right ?_
          rw [Ordered.contains, hqueued]
          exact Bool.false_ne_true
        | none =>
          refine h.latest key c ?_
          rw [hqueued, hput] at hc
          rw [waiting, hqueued]
          exact hc
    · rw [waiting, f.catalog.get?_requeue, or_eq_none_iff, or_eq_none_iff] at hnone
      have hwas : f.waiting key = none := by
        rw [waiting, hnone.1.1]
        exact hnone.2
      refine (h.settled key hwas).imp_right ?_
      rintro ⟨other, hother, c, hc, hlast⟩
      obtain ⟨hlt, hget⟩ := List.getElem?_eq_some_iff.1 hposition
      have hperm := getElem_cons_eraseIdx_perm hlt
      rcases mem_cons.1 (hperm.mem_iff.2 hother) with rfl | hleft
      · -- the version would have been put back
        rw [hget] at hc
        have hnot := find?_eq_none.1 hnone.1.2 c hc
        simp [(lastOf_mem hlast).2] at hnot
      · exact ⟨other, hleft, c, hc, hlast⟩

theorem Sound.step {event : Event} (htimely : f.Timely event) : (f.step event).Sound := by
  cases event with
  | publish s => exact h.publish s
  | take => exact h.take
  | succeed => exact h.succeed
  | fail => exact h.fail
  | requeue position => exact h.requeue htimely

omit h in
theorem Sound.run {events : List Event} (h : f.Sound) (htimely : f.TimelyRun events) :
    (events.foldl Flushing.step f).Sound := by
  induction events generalizing f with
  | nil => exact h
  | cons event rest ih => exact ih (h.step htimely.1) htimely.2

end

/-- When nothing is queued and no flush is on its way, the version of every
    column that was written last is the one that was published last, provided
    that no flush that was put back held an outdated version. -/
theorem last_published_is_written (events : List Event) (htimely : empty.TimelyRun events)
    (hpending : (events.foldl step empty).catalog.pending = [])
    (hrunning : (events.foldl step empty).running = [])
    (hrefused : (events.foldl step empty).refused = []) (key : ColumnKey) :
    lastOf key (events.foldl step empty).written =
      lastOf key (events.foldl step empty).published := by
  have hsound := sound_empty.run htimely
  have hnone : (events.foldl step empty).waiting key = none := by
    rw [waiting, hpending, hrunning]
    rfl
  refine (hsound.settled key hnone).resolve_right ?_
  rintro ⟨flush, hflush, _⟩
  rw [hrefused] at hflush
  exact List.not_mem_nil hflush

/-- A count, and a snowflake in which it has changed. -/
def lengths (longest : Nat) : Snowflake := let counter : Column :=
    { name := "a", physical := "a.$e", table := "t", type := .presence, nestedPath := ["."],
      cardinality := none, count := none, multi := some longest, partitions := none,
      lastUpdated := 0.0 }
  { Snowflake.empty "t" with columns := [counter], dirty := [counter.key] }

/-- A flush fails and is put back when a newer version is queued. -/
def overtaken : List Event :=
  [.publish (lengths 1), .take, .fail, .publish (lengths 2), .requeue 0, .take, .succeed]

theorem last_published_is_written_overtaken :
    empty.TimelyRun overtaken ∧ lastOf ⟨"t", "a", .presence⟩ (overtaken.foldl step empty).written =
      lastOf ⟨"t", "a", .presence⟩ (overtaken.foldl step empty).published := by
  have htimely : empty.TimelyRun overtaken := by
    refine ⟨trivial, trivial, trivial, trivial, fun flush hflush c hc => Or.inr ?_,
      trivial, trivial,
      trivial⟩
    have hfirst : flush = (lengths 1).columns := (Option.some.inj hflush).symm
    rw [hfirst] at hc
    rw [List.mem_singleton.mp hc]
    rfl
  exact ⟨htimely, last_published_is_written overtaken htimely rfl rfl rfl _⟩

/-- A newer version is taken before the older one fails, and written before that is put back. -/
def outrun : List Event :=
  [.publish (lengths 1), .take, .publish (lengths 2), .take, .fail, .succeed, .requeue 0, .take,
    .succeed]

-- nothing is queued or on its way, and the outdated version was written last
example : (outrun.foldl step empty).catalog.pending = [] ∧
    (outrun.foldl step empty).running = [] ∧ (outrun.foldl step empty).refused = [] ∧
    (outrun.foldl step empty).written.map multi = [some 2, some 1] ∧
    (outrun.foldl step empty).published.map multi = [some 1, some 2] :=
  ⟨rfl, rfl, rfl, rfl, rfl⟩

end Flushing

end Snowbank
