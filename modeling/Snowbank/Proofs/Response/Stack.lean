import Snowbank.Service.Session

/-!
# Folding a Listing of Trees

The rows of a result of documents are a listing of trees, each row before those
beneath it. The fold keeps the rows on the way down to the last one on a stack.
It never sees where the rows beneath a row end: it finds out when a row comes
that belongs further up, and completes what lies above by then.

So in between, the stack stands for less than it holds. A row is recognised by
its table and its number, and on the way down every table comes after the one
before it in the layout; so what lies above a row cannot be taken for that row.

## Main definitions

* `RowTree`: A row of a result with the rows that lie beneath it.
* `Fits`: The rows are from tables of the layout, inside each other.
* `Stacked`: What a part of the stack amounts to once it is completed.

## Theorems

* `Stacked.unwind_all`: At the end all frames are completed.
* `documents_listing`: Folding a listing gives the values of the trees.
-/

namespace Snowbank

open List DocumentLayout Frame Option

/-- A row of a result with the rows that lie beneath it. -/
inductive RowTree where
  | mk (row : List Json) (below : List RowTree)

namespace RowTree

/-- The row itself. -/
def row : RowTree → List Json
  | mk row _ => row

mutual

/-- The rows of a tree, each before those beneath it. -/
def listing : RowTree → List (List Json)
  | mk row below => row :: listingAll below

/-- The rows of trees. -/
def listingAll : List RowTree → List (List Json)
  | [] => []
  | t :: rest => listing t ++ listingAll rest

end

theorem listingAll_eq (trees : List RowTree) : listingAll trees = trees.flatMap listing := by
  induction trees with
  | nil => rfl
  | cons t rest ih => rw [listingAll, ih, flatMap_cons]

variable (layout : DocumentLayout)

/-- The table of a row, by position. -/
def index (row : List Json) : Nat := ((cell row layout.kind).nat?).getD 0

/-- Where a row goes in the row that it lies beneath. -/
def place (row : List Json) : Path :=
  ((layout.table? (index layout row)).map TableLayout.path).getD .root

/-- The values of a row alone. -/
def ownValue (row : List Json) : Json :=
  ((layout.table? (index layout row)).map (rowValue · row)).getD .null

mutual

/-- The value that a tree makes up. -/
def value : RowTree → Json
  | mk row below => valueFrom (ownValue layout row) below

/-- A value with those of trees put into it. -/
def valueFrom (v : Json) : List RowTree → Json
  | [] => v
  | mk row below :: rest => valueFrom (v.appendAt (place layout row) (value (mk row below))) rest

end

/-- Every row is from a table of the layout. The rows beneath it are from
    tables inside that table, and have its number as that of their parent. -/
inductive Fits : RowTree → Prop
  | mk {row : List Json} {below : List RowTree} (table : TableLayout)
      (known : layout.tableOf row = .ok (index layout row, table))
      (same : (cell row layout.uid == cell row layout.uid))
      (hangs : ∀ t ∈ below, ∃ inner, layout.tableOf t.row = .ok (index layout t.row, inner) ∧
        inner.parent = some (index layout row) ∧ index layout row < index layout t.row ∧
        cell t.row layout.pid = cell row layout.uid)
      (fit : ∀ t ∈ below, Fits t) : Fits (mk row below)

end RowTree

namespace Frame

/-- What frames, the innermost first, amount to when they are completed down
    to the last one. Going down, tables come later in the layout. -/
inductive Stacked (layout : DocumentLayout) : Frame → List Frame → Prop
  | last (f : Frame) : Stacked layout f [f]
  | on {f : Frame} {top : List Frame} (h : Stacked layout f top) (g : Frame)
      (above : ∀ e ∈ top, g.table < e.table) : Stacked layout (g.attach layout f) (top ++ [g])

section

variable {keep : Frame → Bool}

variable {layout : DocumentLayout} {f g : Frame} {top : List Frame}

theorem Stacked.le_table (h : Stacked layout f top) : ∀ e ∈ top, f.table ≤ e.table := by
  cases h with
  | last => exact fun e he => mem_singleton.1 he ▸ Nat.le_refl _
  | on h g above =>
    intro e he
    rcases mem_append.1 he with he | he
    · exact Nat.le_of_lt (above e he)
    · rw [mem_singleton.1 he]
      exact Nat.le_refl _

/-- Whether a frame is to be kept is seen on its table and number. -/
def Recognises (keep : Frame → Bool) : Prop :=
  ∀ e e' : Frame, e.table = e'.table → e.uid = e'.uid → keep e = keep e'

theorem unwind_cons_of_not_keep {docs : List Json} {e : Frame}
    (he : keep e = false) (g : Frame) (rest : List Frame) :
    unwind layout keep docs (e :: g :: rest) =
      unwind layout keep docs (g.attach layout e :: rest) := by
  change unwindFrom layout keep docs e (g :: rest) = _
  rw [unwindFrom, if_neg (by rw [he]; exact Bool.false_ne_true)]
  cases rest <;> rfl

theorem Stacked.unwind_append (hkeep : Recognises keep)
    (h : Stacked layout f top) (hnone : ∀ e ∈ top, keep e = false) (docs : List Json) (g : Frame)
    (rest : List Frame) : unwind layout keep docs (top ++ g :: rest) =
      unwind layout keep docs (g.attach layout f :: rest) := by
  induction h generalizing g rest with
  | last f => exact unwind_cons_of_not_keep (hnone f mem_cons_self) g rest
  | @on f top h g' above ih =>
    have hrest : ∀ e ∈ top, keep e = false := fun e he => hnone e (mem_append_left _ he)
    have hlast : keep (g'.attach layout f) = false :=
      (hkeep (g'.attach layout f) g' rfl rfl).trans (hnone g' (mem_append_right _ mem_cons_self))
    rw [append_assoc, singleton_append, ih hrest g' (g :: rest), unwind_cons_of_not_keep hlast]

theorem unwind_of_keep (h : keep f) (docs : List Json)
    (rest : List Frame) : unwind layout keep docs (f :: rest) = (f :: rest, docs) := by
  change unwindFrom layout keep docs f rest = _
  cases rest <;> rw [unwindFrom, if_pos h]

/-- Frames are completed down to the one that is kept. -/
theorem Stacked.unwind_eq (hkeep : Recognises keep) (h : Stacked layout f top)
    (hlast : keep f) (habove : ∀ e : Frame, f.table < e.table → keep e = false)
    (docs : List Json) (rest : List Frame) :
    unwind layout keep docs (top ++ rest) = (f :: rest, docs) := by
  cases h with
  | last => exact unwind_of_keep hlast docs rest
  | on h g above =>
    rw [append_assoc, singleton_append,
      h.unwind_append hkeep (fun e he => habove e (above e he)), unwind_of_keep hlast]

theorem Stacked.unwind_all (h : Stacked layout f top) (docs : List Json) :
    unwind layout (fun _ => false) docs top = ([], docs ++ [f.value]) := by
  cases h with
  | last => rfl
  | on h g above =>
    rw [h.unwind_append (fun _ _ _ _ => rfl) fun _ _ => rfl]
    rfl

end

end Frame

namespace RowTree

open DocumentLayout

section

variable {layout : DocumentLayout}

variable {table : TableLayout}

/-- The frame of a row that has just come. -/
def frame (layout : DocumentLayout) (row : List Json) : Frame :=
  ⟨index layout row, cell row layout.uid, ownValue layout row⟩

theorem ownValue_eq {row : List Json} (h : layout.tableOf row = .ok (index layout row, table)) :
    ownValue layout row = rowValue table row := by
  have htable : layout.table? (index layout row) = some table := by
    unfold tableOf at h
    dsimp only at h
    split at h
    next found hfound =>
      obtain ⟨i, _, hi⟩ := bind_eq_some_iff.1 hfound
      obtain ⟨t, ht, rfl⟩ := map_eq_some_iff.1 hi
      obtain ⟨rfl, rfl⟩ := Prod.mk.inj (Except.ok.inj h)
      exact ht
    · cases h
  rw [ownValue, htable]
  rfl

theorem step_below (row : List Json) {inner : TableLayout} {g : Frame} {top : List Frame}
    (hknown : layout.tableOf row = .ok (index layout row, inner))
    (hparent : inner.parent = some g.table) (hpid : cell row layout.pid = g.uid)
    (hsame : (g.uid == g.uid)) (hstacked : Frame.Stacked layout g top) (rest : List Frame)
    (docs : List Json) :
    layout.step (top ++ rest, docs) row = .ok (frame layout row :: g :: rest, docs) := by
  have hunwind : unwind layout (fun f => f.table == g.table && f.uid == g.uid) docs
      (top ++ rest) = (g :: rest, docs) := by
    refine hstacked.unwind_eq (fun e e' ht hu => ?_) ?_ (fun e he => ?_) docs rest
    · rw [ht, hu]
    · rw [beq_self_eq_true, Bool.true_and, hsame]
    · rw [beq_eq_false_iff_ne.2 (Nat.ne_of_gt he), Bool.false_and]
  unfold step
  rw [hknown]
  dsimp only [bind, Except.bind]
  rw [hparent]
  dsimp only
  rw [hpid, hunwind, frame, ownValue_eq hknown]
  rfl

theorem step_document (row : List Json)
    (hknown : layout.tableOf row = .ok (index layout row, table)) (hparent : table.parent = none)
    (stack : List Frame) (docs : List Json) : layout.step (stack, docs) row =
      .ok ([frame layout row], (unwind layout (fun _ => false) docs stack).2) := by
  unfold step
  rw [hknown]
  dsimp only [bind, Except.bind]
  rw [hparent, frame, ownValue_eq hknown]
  rfl

mutual

theorem foldlM_listing (t : RowTree) (hfit : Fits layout t) {inner : TableLayout} {g : Frame}
    {top : List Frame} (hknown : layout.tableOf t.row = .ok (index layout t.row, inner))
    (hparent : inner.parent = some g.table) (hdeeper : g.table < index layout t.row)
    (hpid : cell t.row layout.pid = g.uid) (hsame : (g.uid == g.uid))
    (hstacked : Frame.Stacked layout g top) (rest : List Frame) (docs : List Json) :
    ∃ top', (listing t).foldlM layout.step (top ++ rest, docs) = .ok (top' ++ rest, docs) ∧
      Frame.Stacked layout
        ⟨g.table, g.uid, g.value.appendAt (place layout t.row) (value layout t)⟩ top' := by
  match t, hfit with
  | .mk row below, .mk table _ hsame' hangs fit =>
    have hstep := step_below row hknown hparent hpid hsame hstacked rest docs
    rcases foldlM_listingAll below fit (g := frame layout row) hangs hsame'
      (.last (frame layout row)) (g :: rest) docs with ⟨top', hrun, htop'⟩
    have habove : ∀ e ∈ top', g.table < e.table := fun e he =>
      Nat.lt_of_lt_of_le hdeeper (htop'.le_table e he)
    refine ⟨top' ++ [g], ?_, htop'.on g habove⟩
    rw [listing, foldlM_cons, hstep, append_assoc, singleton_append]
    exact hrun

/-- Trees beneath the last row that is still open. -/
theorem foldlM_listingAll (trees : List RowTree) (hfit : ∀ t ∈ trees, Fits layout t) {g : Frame}
    {top : List Frame}
    (hangs : ∀ t ∈ trees, ∃ inner, layout.tableOf t.row = .ok (index layout t.row, inner) ∧
      inner.parent = some g.table ∧ g.table < index layout t.row ∧
      cell t.row layout.pid = g.uid)
    (hsame : (g.uid == g.uid)) (hstacked : Frame.Stacked layout g top) (rest : List Frame)
    (docs : List Json) :
    ∃ top', (listingAll trees).foldlM layout.step (top ++ rest, docs) = .ok (top' ++ rest, docs) ∧
      Frame.Stacked layout ⟨g.table, g.uid, valueFrom layout g.value trees⟩ top' := by
  match trees with
  | [] =>
    refine ⟨top, ?_, ?_⟩
    · rfl
    · exact hstacked
  | .mk row below :: more =>
    obtain ⟨inner, hknown, hparent, hdeeper, hpid⟩ := hangs _ mem_cons_self
    rcases foldlM_listing (.mk row below) (hfit _ mem_cons_self) hknown hparent hdeeper hpid
      hsame hstacked rest docs with ⟨mid, hrun, hmid⟩
    rcases foldlM_listingAll more (fun t ht => hfit t (.tail _ ht))
      (g := ⟨g.table, g.uid, g.value.appendAt (place layout row) (value layout (.mk row below))⟩)
      (fun t ht => hangs t (.tail _ ht)) hsame hmid rest docs with
      ⟨top', hrun', htop'⟩
    refine ⟨top', ?_, ?_⟩
    · rw [listingAll, foldlM_append, hrun]
      exact hrun'
    · exact htop'

end

/-- Trees of documents, after others of which the last may still be open. -/
theorem foldlM_documents (forest : List RowTree) (hfit : ∀ t ∈ forest, Fits layout t)
    (hroots : ∀ t ∈ forest, ∃ table, layout.tableOf t.row = .ok (index layout t.row, table) ∧
      table.parent = none) (stack : List Frame) (docs : List Json) :
    ∃ stack' docs', (listingAll forest).foldlM layout.step (stack, docs) = .ok (stack', docs') ∧
      (unwind layout (fun _ => false) docs' stack').2 =
        (unwind layout (fun _ => false) docs stack).2 ++ forest.map (value layout) := by
  induction forest generalizing stack docs with
  | nil => exact ⟨stack, docs, rfl, (append_nil _).symm⟩
  | cons t more ih =>
    obtain ⟨row, below⟩ := t
    obtain ⟨table, hknown, hparent⟩ := hroots _ mem_cons_self
    cases hfit _ mem_cons_self with
    | mk _ _ hsame hangs fit =>
      rcases foldlM_listingAll below fit (g := frame layout row) hangs hsame
        (.last (frame layout row)) [] (unwind layout (fun _ => false) docs stack).2 with
        ⟨top, hrun, htop⟩
      rcases ih (fun t ht => hfit t (.tail _ ht)) (fun t ht => hroots t (.tail _ ht)) top
        (unwind layout (fun _ => false) docs stack).2 with ⟨stack', docs', hmore, hend⟩
      refine ⟨stack', docs', ?_, ?_⟩
      · rw [append_nil, append_nil] at hrun
        rw [listingAll, listing, cons_append, foldlM_cons,
          step_document row hknown hparent, ← hmore]
        change (listingAll below ++ listingAll more).foldlM layout.step ([frame layout row], _) = _
        rw [foldlM_append, hrun]
        rfl
      · rw [hend, htop.unwind_all, map_cons, append_assoc]
        rfl

theorem documents_listing {forest : List RowTree} (hfit : ∀ t ∈ forest, Fits layout t)
    (hroots : ∀ t ∈ forest, ∃ table, layout.tableOf t.row = .ok (index layout t.row, table) ∧
      table.parent = none) :
    layout.documents (listingAll forest) = .ok (forest.map (value layout)) := by
  obtain ⟨stack, docs, hrun, hend⟩ := foldlM_documents forest hfit hroots [] []
  unfold documents
  rw [hrun]
  exact congrArg Except.ok hend

end

end RowTree

end Snowbank
