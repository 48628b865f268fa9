import Snowbank.Proofs.Response.Lookup

/-!
# Documents as Structs

A document can be asked for as one value: a struct of the cells of its row,
with a list of such structs for each array in it. What such a struct is read as
is made up of the same parts as the document that is put together row by row.

The rows of an array must have something to make a struct of. Where they have
neither columns nor arrays, there is a null for each of them in the list, which
is not the empty object that is put together.

## Main definitions

* `rowStruct`: The struct of a row of an array.
* `RowsFilled`: The rows of every array have columns, or arrays inside them.

## Theorems

* `structs_assembled`: Structs are read as the documents put together.
-/

namespace Snowbank

open List Ordered

variable {fields : Fields} {n : Path} {s : Snowflake}

theorem filterMap_ite {α β : Type} (p : α → Bool) (f : α → β) (l : List α) :
    (l.filterMap fun a => if p a then some (f a) else none) = (l.filter p).map f := by
  induction l with
  | nil => rfl
  | cons a rest ih =>
    rw [filterMap_cons, filter_cons, ih]
    cases p a <;> rfl

namespace Json

/-- A value has nothing at a place: what a change makes of it there, it makes of nothing. -/
def ClearAt (v : Json) (ks : List String) : Prop :=
  ∀ f g : Json → Json, f .null = g .null → modifyAt? f ks v = modifyAt? g ks v

theorem clearAt_null (ks : List String) : ClearAt .null ks := by
  intro f g h
  induction ks with
  | nil => exact congrArg some h
  | cons k ks ih => rw [modifyAt?, modifyAt?, ih]

theorem ClearAt.modifyAt? {v w : Json} {ks ls : List String} (h : ClearAt v ks)
    (hapart : Apart ls ks)
    {change : Json → Json} (hw : modifyAt? change ls v = some w) : ClearAt w ks := by
  intro f g hfg
  have hcomm := fun f => modifyAt?_comm (f := change) (g := f) hapart v
  simp only [hw, Option.bind_some] at hcomm
  rw [hcomm, hcomm, h f g hfg]

/-- At places that are clear and apart, it does not matter what changes would
    make of anything but nothing. -/
theorem run_congr_clear {α : Type} {k : α → List String} {f g : α → Json → Json} {places : List α}
    (h : ∀ a ∈ places, f a .null = g a .null)
    (hapart : places.Pairwise fun a b => Apart (k a) (k b)) {v : Json}
    (hclear : ∀ a ∈ places, ClearAt v (k a)) :
    run (places.map fun a => ⟨k a, f a⟩) v = run (places.map fun a => ⟨k a, g a⟩) v := by
  induction places generalizing v with
  | nil => rfl
  | cons a rest ih =>
    rw [forall_mem_cons] at h hclear
    obtain ⟨hfirst, hrest⟩ := pairwise_cons.1 hapart
    rw [map_cons, map_cons, run_cons, run_cons, Edit.apply, hclear.1 _ _ h.1]
    refine Option.bind_congr fun w hw => ih h.2 hrest fun b hb => ?_
    exact (hclear.2 b hb).modifyAt? (hfirst b hb) hw

/-- What a field of a struct writes, and where. A null writes nothing. -/
def fieldWrite? (field : String × Json) : Option (Path × Json) :=
  let (path, type) := fieldPlace field.1
  let value := (type.map (typedValue · field.2 field.2.decode)).getD field.2.decode
  if value.isNull then none else some (path, value)

theorem fieldWrite?_null (key : String) : fieldWrite? (key, .null) = none := by
  unfold fieldWrite?
  obtain ⟨path, type⟩ := fieldPlace key
  cases type with
  | none => rfl
  | some type => cases type <;> rfl

/-- A field with the name of a column goes where the column is. -/
theorem fieldWrite?_typed {p : Path} (hp : p.Clean) (hunder : p.isUnder n) (t : DataType)
    {raw : Json} (h : (typedValue t.storage raw raw.decode).isNull = false) :
    fieldWrite? ((p.relativeTo n).typed t, raw) =
      some (p.relativeTo n, typedValue t.storage raw raw.decode) := by
  rw [fieldWrite?, fieldPlace, hp.untyped?_relativeTo hunder]
  exact if_neg (Bool.eq_false_iff.1 h)

theorem decodeFields_eq_foldl (fields : Fields) (target : Json) : decodeFields target fields =
      (fields.filterMap fieldWrite?).foldl (fun out x => out.setPath x.1 x.2) target := by
  induction fields generalizing target with
  | nil => rfl
  | cons field rest ih =>
    rw [decodeFields, ih, filterMap_cons, placeField, fieldWrite?]
    obtain ⟨path, type⟩ := fieldPlace field.1
    cases type <;> dsimp only [Option.map, Option.getD] <;> split <;> rfl

theorem decodeFields_eq {writes : List (Path × Json)}
    (hperm : (fields.filterMap fieldWrite?).Perm writes)
    (hapart : writes.Pairwise fun x y => Apart x.1.keys y.1.keys) : decodeFields .null fields =
      (run (writes.map fun x => ⟨x.1.keys, fun _ => x.2⟩) .null).getD .null := by
  have hsome : (run (writes.map fun x => ⟨x.1.keys, fun _ => x.2⟩) .null).isSome :=
    isSome_run (pairwise_map.2 hapart) fun e _ => isSome_modifyAt?_null e.change e.keys
  obtain ⟨w, hw⟩ := Option.isSome_iff_exists.1 hsome
  have hfields := hperm.symm.pairwise hapart fun h => h.symm
  rw [decodeFields_eq_foldl, hw, Option.getD_some]
  refine foldl_setPath (fun _ _ => .inr rfl) hfields ?_
  rw [← hw]
  exact run_perm (hperm.map _) (pairwise_map.2 hfields) .null

theorem decodeItems_eq {items : List Json} (h : ∀ item ∈ items, item.isObj) :
    decodeItems items = items.map fun item => item.decode.orEmpty := by
  induction items with
  | nil => rfl
  | cons item rest ih =>
    rw [forall_mem_cons] at h
    rw [decodeItems, h.1, Bool.true_and, ih h.2]
    rfl

/-- A list of values, null if there are none. -/
def listed (items : List Json) : Json := if items.isEmpty then .null else .arr items

end Json

namespace Snowflake

open Plan Json

/-- The arrays right inside an array. -/
def innerArrays (s : Snowflake) (n : Path) : List Path :=
  s.nestedPaths.filter fun m => s.parentNestedPath m == n

/-- The fields of the struct of a row of an array: its cells by the names and
    types of their columns, and the rows of the arrays inside it as lists. -/
def structFields (s : Snowflake) (n : Path) (r : Cells) (rows : Path → List Json) : Fields :=
  ((valueColumnsOf s n).map fun c => ((c.name.relativeTo n).typed c.type, r c.physical)) ++
    (s.innerArrays n).map fun m => ((m.relativeTo n).typed .nested, listed (rows m))

/-- The struct of a row of an array, down to a number of levels of arrays, with
    its fields in a certain order. Without fields it is null. -/
def rowStruct (s : Snowflake) (tables : Tables) (order : Fields → Fields) :
    Nat → Path → Cells → Json
  | 0, _, _ => .null
  | level + 1, n, r =>
    let fields := s.structFields n r fun m =>
      (s.childRows tables m r).map (s.rowStruct tables order level m)
    if fields.isEmpty then .null else .obj (order fields)

/-- The struct of the row of a document. No array lies deeper than there are arrays. -/
def documentStruct (s : Snowflake) (tables : Tables) (order : Fields → Fields) (r : Cells) : Json :=
  s.rowStruct tables order (s.nested.length + 1) .root r

/-- The rows of every array have columns, or arrays inside them. -/
def RowsFilled (s : Snowflake) : Prop :=
  ∀ n ∈ s.nested, valueColumnsOf s n ≠ [] ∨ s.innerArrays n ≠ []

instance (s : Snowflake) : Decidable s.RowsFilled :=
  inferInstanceAs (Decidable (∀ n ∈ s.nested, _ ∨ _))

theorem mem_innerArrays {m : Path} :
    m ∈ s.innerArrays n ↔ m ∈ s.nested ∧ s.parentNestedPath m = n := by
  rw [innerArrays, mem_filter, nestedPaths, (perm_sortBy _).mem_iff, beq_iff_eq]

end Snowflake

namespace Node

open Plan Json Snowflake

/-- What is under a label of a row, as it is written at once. -/
def labelWrite (s : Snowflake) (x : Node) (label : Path × DataType) : Path × Json :=
  (label.1.relativeTo x.path, if label.2 = .presence then .arr ((x.kids label.1).map (value s))
    else s.labelValue x.cells label)

section

variable {s : Snowflake} (hs : s.Laid) {x : Node} (h : Proper s x)
  (hreads : s.Reads x.path x.cells) {rows : Path → List Json}
  (hrows : ∀ m ∈ s.innerArrays x.path, (rows m).isEmpty = (x.kids m).isEmpty ∧
    decodeItems (rows m) = (x.kids m).map (value s))

include hs h hreads hrows

theorem perm_fieldWrites : ((s.structFields x.path x.cells rows).filterMap fieldWrite?).Perm
    ((s.content x.path x.cells).map (labelWrite s x)) := by
  have hcolumns : ∀ c ∈ valueColumnsOf s x.path,
      fieldWrite? ((c.name.relativeTo x.path).typed c.type, x.cells c.physical) =
        if !(x.cells c.physical).isNull then some (labelWrite s x c.label) else none := by
    intro c hc
    cases hnull : (x.cells c.physical).isNull with
    | true => rw [eq_null_of_isNull hnull, fieldWrite?_null]; rfl
    | false =>
      obtain ⟨hfills, hpresence, hvalue, hsome⟩ := hreads.column hs hc hnull
      refine (fieldWrite?_typed (hreads.clean _ hfills) (hfills.isUnder hs) c.type ?_).trans ?_
      · exact hvalue ▸ hsome
      · rw [hvalue, labelWrite, if_neg hpresence]
        rfl
  have harrays : ∀ m ∈ s.innerArrays x.path,
      fieldWrite? ((m.relativeTo x.path).typed .nested, listed (rows m)) =
        if !(x.kids m).isEmpty then some (labelWrite s x (m, .presence)) else none := by
    intro m hm
    obtain ⟨hempty, hvalues⟩ := hrows m hm
    rw [listed, hempty]
    cases hkids : (x.kids m).isEmpty with
    | true => exact fieldWrite?_null _
    | false =>
      have hfills := (fills_presence hs h).2 (isEmpty_eq_false_iff.1 hkids)
      refine (fieldWrite?_typed (hreads.clean _ hfills) (hfills.isUnder hs) .nested rfl).trans ?_
      rw [labelWrite, if_pos rfl, ← hvalues]
      rfl
  -- the arrays with rows are the same whether they are looked for inside or all over
  have hinner : (s.innerArrays x.path).filter (fun m => !(x.kids m).isEmpty) =
      (arrays s).filter fun m => !(x.kids m).isEmpty := by
    have hinside : ∀ m, (x.kids m).isEmpty = false → m ∈ s.nested ∧
      s.parentNestedPath m = x.path := by
      intro m hkids
      have hfills := (fills_presence hs h).2 (isEmpty_eq_false_iff.1 hkids)
      exact ⟨(hs.counted m).2 hfills.1, hfills.2.2.1⟩
    rw [innerArrays, filter_filter, arrays_eq hs.toArraysOrdered, filter_cons_of_neg]
    · refine filter_congr fun m _ => ?_
      cases hkids : (x.kids m).isEmpty with
      | true => rfl
      | false => exact beq_iff_eq.2 (hinside m hkids).2
    · exact fun hkids => hs.not_root (hinside _ ((Bool.not_eq_true' _).mp hkids)).1
  refine Perm.trans (.of_eq ?_) ((perm_content hs h).map _).symm
  rw [structFields, filterMap_append, filterMap_map, filterMap_map, map_append, map_map, map_map,
    ← hinner]
  exact congrArg₂ (· ++ ·) ((filterMap_congr hcolumns).trans (filterMap_ite ..))
    ((filterMap_congr harrays).trans (filterMap_ite ..))

/-- The struct of a row is read as the value of its tree. -/
theorem decodeFields_structFields (hx : x.path ∈ arrays s)
    (hfields : fields.Perm (s.structFields x.path x.cells rows)) :
    (decodeFields .null fields).orEmpty = value s x := by
  have hkeys : ∀ label ∈ s.content x.path x.cells,
      (labelWrite s x label).1.keys = label.1.keys.drop x.path.depth := by
    intro label hlabel
    have hfills := mem_content.1 hlabel
    exact (hreads.clean _ hfills).keys_relativeTo (hfills.isUnder hs)
  have hpairwise := hreads.pairwise hs (hs.unique.sublist filter_sublist) fun _ hlabel =>
    mem_content.1 hlabel
  have hapart : ((s.content x.path x.cells).map (labelWrite s x)).Pairwise fun a b =>
      Apart a.1.keys b.1.keys := by
    refine pairwise_map.2 (hpairwise.imp_of_mem fun {a b} ha hb hab => ?_)
    rw [hkeys a ha, hkeys b hb]
    exact hab
  rw [value_eq hs h hx hreads, decodeFields_eq ((hfields.filterMap _).trans
    (perm_fieldWrites hs h hreads hrows)) hapart, map_map]
  refine congrArg (fun w => orEmpty (Option.getD w .null)) ?_
  refine (congrArg (run · .null) (map_congr_left fun label hlabel => ?_)).trans
    (run_congr_clear (k := fun label => label.1.keys.drop x.path.depth)
      (f := fun label _ => (labelWrite s x label).2) (g := fun label => (change s x label).change)
      (fun label hlabel => ?_) hpairwise fun label _ => clearAt_null _)
  · exact congrArg (Edit.mk · _) (hkeys label hlabel)
  · unfold labelWrite change
    split
    next hpresence =>
      have hfills := mem_content.1 hlabel
      rw [show label = (label.1, .presence) from Prod.ext rfl hpresence] at hfills
      exact (pushAll_null (mt map_eq_nil_iff.1 ((fills_presence hs h).1 hfills))).symm
    · rfl

end

/-- The structs of the rows that are stored are read as the values of their trees. -/
theorem StoredAs.decode_rowStruct (hs : s.Laid) {tables : Tables} {forest : List Node}
    (h : StoredAs s tables forest) (hreads : ∀ n, ∀ r ∈ rowsOf forest n, s.Reads n r)
    (hfilled : s.RowsFilled) {order : Fields → Fields}
    (horder : ∀ fields, (order fields).Perm fields)
    {level : Nat} (hn : n ∈ arrays s)
    (hlevel : s.nested.length + 2 ≤ level + (s.nestedPathList n).length) {x : Node}
    (hx : x ∈ withinAll n forest) :
    (s.rowStruct tables order level n x.cells).decode.orEmpty = value s x ∧
      (n ∈ s.nested → (s.rowStruct tables order level n x.cells).isObj) := by
  have harrays := hs.toArraysOrdered
  induction level generalizing n x with
  -- no array lies that deep
  | zero =>
    have hlength : (s.nestedPathList n).length ≤ s.nested.length + 1 := by
      rw [nestedPathList, length_append, (perm_sortBy _).length_eq]
      exact Nat.add_le_add_right (length_filter_le _ _) 1
    omega
  | succ level ih =>
    obtain ⟨hproper, rfl⟩ := h.sprouted.of_mem hx
    have hvalue : ∀ fields : Fields, fields.Perm (s.structFields x.path x.cells fun m =>
        (s.childRows tables m x.cells).map (s.rowStruct tables order level m)) → _ := fun _ =>
      decodeFields_structFields hs hproper (hreads _ _ (mem_map_of_mem hx)) (fun m hm => ?_) hn
    · rw [rowStruct]
      split
      next hnil =>
        refine ⟨hvalue [] (.of_eq (List.isEmpty_iff.1 hnil).symm), fun hm => ?_⟩
        rw [List.isEmpty_iff, structFields, append_eq_nil_iff, map_eq_nil_iff,
          map_eq_nil_iff] at hnil
        exact ((hfilled _ hm).elim (fun hne => hne hnil.1) fun hne => hne hnil.2).elim
      · exact ⟨hvalue _ (horder _), fun _ => rfl⟩
    · -- the rows of an inner array are one level further down
      obtain ⟨hm, hparent⟩ := mem_innerArrays.1 hm
      rw [← hparent] at hx
      have hlength := length_nestedPathList harrays hm
      rw [hparent] at hlength
      have hbelow : ∀ y ∈ x.kids m, _ := fun y hy =>
        ih ((mem_arrays harrays).2 (.inr hm)) (by omega)
          (mem_filter.1 (h.sprouted.filter_hangs harrays hm hx ▸ hy)).1
      rw [h.childRows_eq harrays hm hx, map_map, isEmpty_map, decodeItems_eq, map_map]
      · exact ⟨rfl, map_congr_left fun y hy => (hbelow y hy).1⟩
      · refine forall_mem_map.2 fun y hy => ?_
        exact (hbelow y hy).2 hm

end Node

namespace Query

open Snowflake Json

/-- The structs of documents that are stored where nothing was are read as the
    documents that are put together from rows. -/
theorem structs_assembled (fact : String) (clock : Float) {docs : List (String × Json)}
    (hdocs : ∀ doc ∈ docs, doc.2.Document ∧ doc.2.Numbers Shown) {order : Fields → Fields}
    (horder : ∀ fields, (order fields).Perm fields) :
    ∃ shredded s, { empty fact with clock }.shred docs = (.ok shredded, s) ∧
      (s.RowsFilled → ∀ q : Query, q.AsksAll fact →
        ∃ plan, q.plan s = .ok plan ∧ plan.documents = some (Plan.layout s .root) ∧
          plan.assemble q (Plan.documentRows s (shredded.apply fun _ => [])) =
            .ok (.mkObj [Plan.metadata q, ("data", .arr (((shredded.apply fun _ => []) s.fact).map
              fun r => (s.documentStruct (shredded.apply fun _ => []) order
              r).decode.orEmpty))])) := by
  rcases shred_empty fact clock fun doc hdoc => (hdocs doc hdoc).1 with
    ⟨shredded, s, next, hshred, hs, rfl, _, hstored, hholds⟩
  refine ⟨shredded, s, hshred, fun hfilled q hq => ?_⟩
  have harrays := hs.toArraysOrdered
  have hroot : .root ∈ Plan.arrays s := (Plan.mem_arrays harrays).mpr (.inl rfl)
  have hrows := hstored.rows .root hroot
  have hreads := (Node.rows_ofDocuments hs hdocs next hholds).1
  rw [Node.rowsOf, hstored.sprouted.withinAll_root harrays] at hrows
  change (shredded.apply fun _ => []) s.fact = _ at hrows
  rw [hrows, map_map]
  rcases hq.assemble_stored hs hstored with ⟨plan, hplan, hlayout, hassemble⟩
  refine ⟨plan, hplan, hlayout, hassemble.trans ?_⟩
  rw [map_congr_left fun x hx => ?_]
  refine (hstored.decode_rowStruct hs hreads hfilled horder hroot ?_ ?_).1.symm
  · rw [Plan.nestedPathList_root harrays]
    exact Nat.le_refl _
  · rwa [hstored.sprouted.withinAll_root harrays]

theorem structs_assembled_fanned :
    (∀ doc ∈ fanned, doc.2.Document ∧ doc.2.Numbers Shown) ∧
      (∀ fields : Fields, fields.reverse.Perm fields) ∧
      ∃ shredded s, { empty "t" with clock := 1.5 }.shred fanned = (.ok shredded, s) ∧
      s.RowsFilled ∧
        ∀ q : Query, q.AsksAll "t" → ∃ plan, q.plan s = .ok plan ∧
          plan.assemble q (Plan.documentRows s (shredded.apply fun _ => [])) =
            .ok (.mkObj [Plan.metadata q, ("data", .arr (((shredded.apply fun _ => []) s.fact).map
              fun r => (s.documentStruct (shredded.apply fun _ => []) .reverse
                r).decode.orEmpty))]) := by
  have hnumbers : ∀ doc ∈ fanned, doc.2.Numbers Shown := by
    simp only [fanned, forall_mem_cons, Numbers, NumbersFields, NumbersItems, nat, and_true,
      true_and]
    exact ⟨⟨rfl, rfl, rfl⟩, forall_mem_nil _⟩
  have hdocs : ∀ doc ∈ fanned, doc.2.Document ∧ doc.2.Numbers Shown := fun doc hdoc =>
    ⟨(by decide +kernel : ∀ doc ∈ fanned, doc.2.Document) doc hdoc, hnumbers doc hdoc⟩
  rcases structs_assembled "t" 1.5 hdocs List.reverse_perm with ⟨shredded, s, hshred, hanswer⟩
  have hs : s = ({ empty "t" with clock := 1.5 }.shred fanned).2 := by
    rw [hshred]
  have hfilled : s.RowsFilled := hs ▸ (by decide +kernel)
  refine ⟨hdocs, List.reverse_perm, shredded, s, hshred, hfilled, fun q hq => ?_⟩
  rcases hanswer hfilled q hq with ⟨plan, hplan, _, hassemble⟩
  exact ⟨plan, hplan, hassemble⟩

end Query

end Snowbank
