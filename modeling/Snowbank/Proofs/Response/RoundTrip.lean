import Mathlib
import Snowbank.Proofs.Response.Entries
import Snowbank.Proofs.Snowflake.WellFormed

/-!
# Documents Come Back

A query for all documents of a collection is answered from one statement, whose
rows are those of all tables with their places. When nothing was stored before,
they are the listing of the trees of the documents, and what is put together
from the listing is what the trees say: one answer for each document, in order.

It could be thought that all that is without content is left out; but an item
of an array has a row of its own, so it stays an item when it has no content,
and an array that holds arrays is kept as it is.

## Main definitions

* `AsksAll`: The query asks for all documents of a collection in a list.
* `pruned`: A value without all that has no content.

## Theorems

* `AsksAll.assemble_stored`: The answer is what the trees say.
* `documents_restored`: Each document comes back as `restored` says.
* `documents_not_pruned`: What comes back is not the pruned document.
-/

namespace Snowbank

open List Node Snowbank.Path Plan SchemaChange ResultColumn

open Json

namespace Query

/-- The query asks for all documents of a collection in a list. -/
structure AsksAll (q : Query) (fact : String) : Prop where
  fact : q.fact = fact
  queryPath : q.queryPath = .root
  select : q.select = [.whole]
  filter : q.filter = .yes
  edges : q.edges = []
  groupby : q.groupby = []
  sort : q.sort = []
  window : q.window = []
  format : q.format = .list

/-- A query that names a collection and nothing else. -/
def ofFact (fact : String) : Json := .obj [("from", .str (escapeKey fact))]

theorem asksAll_ofJson {fact : String} (hfact : Path.CleanKey fact) {s : Snowflake}
    (hs : s.fact = fact) (now : Float) :
    ∃ q, Query.ofJson now s.schema (ofFact fact) = .ok q ∧ q.AsksAll fact := by
  -- the name of the collection is one key, however it is escaped
  have hkeys : Path.keys (escapeKey fact) = [fact] := by
    rw [← ofKeys_singleton]
    exact keys_ofKeys fun key hkey => mem_singleton.1 hkey ▸ hfact
  have hsource : readSource s.schema (ofFact fact) = .ok (escapeKey fact, fact, .root) := by
    have hsource : sourceKeys (ofFact fact) = .ok (escapeKey fact, [fact]) :=
      congrArg (fun keys => Except.ok (escapeKey fact, keys)) hkeys
    rw [readSource, hsource]
    change (if (!s.fact.isEmpty && s.fact != fact) = true then _ else _) = _
    rw [hs, bne_self_eq_false, Bool.and_false]
    rfl
  have hproperties : [("from", Json.str (escapeKey fact))].find?
      (fun field => !properties.contains field.1) = none := rfl
  -- all other properties are left out and get their defaults
  unfold Query.ofJson
  dsimp only [ofFact] at hsource ⊢
  rw [hproperties, hsource]
  exact ⟨_, rfl, rfl, rfl, rfl, rfl, rfl, rfl, rfl, rfl, rfl⟩

section

variable {q : Query} {s : Snowflake} (h : q.AsksAll s.fact)

include h

theorem AsksAll.plan_eq : ∃ sql, q.plan s = .ok ⟨sql, .documents,
    mapping (documentColumns s .root), some (layout s .root)⟩ := by
  have hshape : Shape.ofQuery q = .documents := by
    rw [Shape.ofQuery, h.edges, h.groupby, isAggregate, Shape.isWhole, h.select, h.window]
    rfl
  -- without a sort and a filter there is no SQL that could fail
  have hrows : ∃ rows, rowsCte q ⟨s, .root⟩ = .ok rows := by
    unfold rowsCte filterSql
    rw [h.sort, h.filter]
    exact ⟨_, rfl⟩
  obtain ⟨rows, hrows⟩ := hrows
  unfold Query.plan
  rw [h.fact, h.queryPath, hshape, h.window, bne_self_eq_false, bne_self_eq_false]
  unfold wholeDocuments
  dsimp only
  rw [hrows]
  exact ⟨_, rfl⟩

theorem AsksAll.assemble_stored (hs : s.Laid) {tables : Tables} {forest : List Node}
    (hstored : Node.StoredAs s tables forest) :
    ∃ plan, q.plan s = .ok plan ∧ plan.documents = some (layout s .root) ∧
      plan.assemble q (documentRows s tables) = .ok (.mkObj [metadata q,
        ("data", .arr (forest.map (value s)))]) := by
  obtain ⟨sql, hplan⟩ := h.plan_eq
  refine ⟨_, hplan, rfl, ?_⟩
  -- each row is as wide as the mapping, so none is refused
  have hwidth : (documentRows s tables).find? (fun row => row.length !=
      (mapping (documentColumns s .root)).length) = none := by
    refine find?_eq_none.2 fun row hrow hwidth => ?_
    obtain ⟨index, _, hrow⟩ := mem_flatMap.1 ((Ordered.perm_sortBy _).mem_iff.1 hrow)
    obtain ⟨j, _, rfl⟩ := mem_map.1 hrow
    rw [length_resultRow, ResultColumn.mapping, length_map, length_zipIdx,
      bne_self_eq_false] at hwidth
    cases hwidth
  unfold assemble
  dsimp only
  rw [hwidth]
  rw [if_pos (by rfl)]
  unfold documentAnswer
  dsimp only
  rw [hstored.documents_eq hs.toArraysOrdered, h.format]
  rfl

/-- So documents come back whose trees are stored. -/
theorem AsksAll.assemble_eq (hs : s.Laid) {tables : Tables} {docs : List (String × Json)}
    (hdocs : ∀ doc ∈ docs, doc.2.Document ∧ doc.2.Legible) {next : Counters}
    (hstored : Node.StoredAs s tables (ofDocuments s next docs).1)
    (hholds : ∀ n, ∀ r ∈ rowsOf (ofDocuments s next docs).1 n, s.Holds n r) :
    ∃ plan, q.plan s = .ok plan ∧ plan.documents = some (layout s .root) ∧
      plan.assemble q (documentRows s tables) = .ok (.mkObj [metadata q,
        ("data", .arr (docs.map fun doc => restoredDocument s.isNested doc.2))]) := by
  rw [← values_ofDocuments hs hdocs next hholds]
  exact h.assemble_stored hs hstored

end

end Query

namespace Stored

open Snowflake

/-- Without rows, a table stays without rows when tables change. -/
theorem foldl_changes_nil (changes : List SchemaChange) :
    changes.foldl apply (fun _ => []) = fun _ => [] := by
  induction changes with
  | nil => rfl
  | cons change rest ih =>
    have hchange : apply (fun _ => []) change = fun _ => [] := by
      cases change with
      | create | add => rfl
      -- rows move out of a table that has none
      | nest =>
        funext table
        unfold apply
        dsimp only
        split
        · rfl
        · split <;> rfl
    rw [foldl_cons, hchange, ih]

end Stored

namespace Snowflake

/-- Documents that are stored where nothing was are stored as their trees. -/
theorem shred_empty (fact : String) (clock : Float) {docs : List (String × Json)}
    (hdocs : ∀ doc ∈ docs, doc.2.Document) :
    ∃ shredded s next, { empty fact with clock }.shred docs = (.ok shredded, s) ∧ s.Laid ∧
      s.fact = fact ∧ s.isNested = (arraysOf (docs.map Prod.snd)).contains ∧
      Node.StoredAs s (shredded.apply fun _ => []) (ofDocuments s next docs).1 ∧
      ∀ n, ∀ r ∈ rowsOf (ofDocuments s next docs).1 n, s.Holds n r := by
  have htidy : ∀ doc ∈ docs, doc.2.Tidy := fun doc hdoc => (hdocs doc hdoc).2
  obtain ⟨changes, grown, hnested, hsound, harrays⟩ :=
    (Stored.sound_empty fact).demanded clock hdocs
  have hgrown : grown.SameArrays grown := ⟨hsound.laid, rfl, rfl⟩
  -- the rows are made for the arrays of the catalog before and after
  obtain ⟨hplanted, _⟩ :=
    Shredding.planted_documents hsound.laid.toArraysOrdered docs htidy ⟨grown, changes, []⟩ hgrown
  generalize hmade : docs.foldl (fun st doc => Shredding.document st doc.1 doc.2)
    ⟨grown, changes, []⟩ = made at hplanted
  have hs := hplanted.arrays.laid.toArraysOrdered
  have hsame : made.snowflake.SameArrays grown :=
    ⟨hsound.laid, hplanted.arrays.fact.symm, hplanted.arrays.nested.symm⟩
  rcases Shredding.planted_documents hs docs htidy ⟨grown, changes, []⟩ hsame with
    ⟨hrows, _⟩
  rw [hmade] at hrows
  have hshred : { empty fact with clock }.shred docs = _ := shred_eq hnested hmade
  refine ⟨_, _, grown.nextOf, hshred, hplanted.arrays.laid, ?_, ?_, ?_, hrows.holds⟩
  · have hfact := fact_shred { empty fact with clock } docs
    rw [hshred] at hfact
    exact hfact
  · funext path
    rw [hplanted.arrays.isNested, Bool.eq_iff_iff, isNested_iff, harrays, contains_iff_mem]
    exact or_iff_right not_mem_nil
  · have hsprouted := sprouted_ofDocuments hs docs htidy grown.nextOf
    refine ⟨hsprouted, fun n _ => ?_, numbered_ofDocuments hs htidy _⟩
    -- nothing was there before, so the rows made are all that is stored
    have hadded : (Stored.withRows ⟨made.snowflake, fun _ => []⟩ made).rowsAt n = _ :=
      Stored.rowsAt_withRows hrows rfl hsprouted n
    rw [Shredded.apply, Stored.foldl_changes_nil]
    exact hadded

end Snowflake

namespace Json

mutual

/-- A value without nulls and without objects and arrays in which nothing is
    left, with an array at every path of one; null if nothing is left. -/
def pruned (isArray : Path → Bool) (path : Path) : Json → Json
  | .null => .null
  | .obj fields =>
    if (prunedFields isArray path fields).isEmpty then .null
    else if isArray path then .arr [.obj (prunedFields isArray path fields)]
    else .obj (prunedFields isArray path fields)
  | .arr items =>
    if (prunedItems isArray path items).isEmpty then .null
    else .arr (prunedItems isArray path items)
  | value => if isArray path then .arr [value.decode] else value.decode

/-- The same for fields. -/
def prunedFields (isArray : Path → Bool) (path : Path) : List (String × Json) → Fields
  | [] => []
  | (key, value) :: rest =>
    if (pruned isArray (path.append (escapeKey key)) value).isNull then
      prunedFields isArray path rest
    else
      (key, pruned isArray (path.append (escapeKey key)) value) ::
        prunedFields isArray path rest

/-- The same for the items of an array, which lie at the path of the array. -/
def prunedItems (isArray : Path → Bool) (path : Path) : List Json → List Json
  | [] => []
  | .null :: rest => prunedItems isArray path rest
  | .obj fields :: rest =>
    if (prunedFields isArray path fields).isEmpty then prunedItems isArray path rest
    else .obj (prunedFields isArray path fields) :: prunedItems isArray path rest
  | .arr items :: rest =>
    if (prunedItems isArray path items).isEmpty then prunedItems isArray path rest
    else .arr (prunedItems isArray path items) :: prunedItems isArray path rest
  | value :: rest => value.decode :: prunedItems isArray path rest

end

end Json

namespace Query

open Snowflake

/-- Documents that are stored where nothing was come back, one for each and in their order. -/
theorem documents_restored (fact : String) (clock : Float) {docs : List (String × Json)}
    (hdocs : ∀ doc ∈ docs, doc.2.Document ∧ doc.2.Legible) :
    ∃ shredded s, { empty fact with clock }.shred docs = (.ok shredded, s) ∧
      ∀ q : Query, q.AsksAll fact →
        ∃ plan, q.plan s = .ok plan ∧ plan.documents = some (Plan.layout s Path.root) ∧
          plan.assemble q (Plan.documentRows s (shredded.apply fun _ => [])) =
            .ok (.mkObj [Plan.metadata q, ("data", .arr (docs.map fun doc =>
              restoredDocument (arraysOf (docs.map Prod.snd)).contains doc.2))]) := by
  rcases shred_empty fact clock fun doc hdoc => (hdocs doc hdoc).1 with
    ⟨shredded, s, next, hshred, hs, rfl, hnested, hstored, hholds⟩
  refine ⟨shredded, s, hshred, fun q hq => ?_⟩
  -- the arrays of the catalog are those in the documents
  rw [← hnested]
  exact hq.assemble_eq hs hdocs hstored hholds

/-- A document without the array of the next one, which is no array there. -/
def mixed : List (String × Json) :=
  [("x", .obj [("a", .arr [.obj [("b", .nat 1)], .null, .str "c"]), ("d", .obj [("e", .null)])]),
    ("y", .obj [("a", .obj [("b", .null)]), ("m", .arr [.arr [.null, .nat 2]])])]

theorem documents_restored_mixed :
    (∀ doc ∈ mixed, doc.2.Document ∧ doc.2.Legible) ∧
      ∃ shredded s q plan, { empty "t" with clock := 1.5 }.shred mixed = (.ok shredded, s) ∧
        Query.ofJson 2.5 s.schema (ofFact "t") = .ok q ∧ q.plan s = .ok plan ∧
        plan.assemble q (Plan.documentRows s (shredded.apply fun _ => [])) =
          .ok (.mkObj [Plan.metadata q, ("data", .arr
            [.obj [("a", .arr [.obj [("b", .nat 1)], .str "c"])],
              .obj [("a", .arr [.obj []]), ("m", .arr [.arr [.null, .nat 2]])]])]) := by
  have hlegible : ∀ doc ∈ mixed, doc.2.Legible := by
    simp only [mixed, List.forall_mem_cons, Legible, LegibleFields, LegibleItems, nat, and_true,
      true_and]
    exact ⟨⟨by cbv, rfl⟩, ⟨by cbv, by cbv, rfl⟩, List.forall_mem_nil _⟩
  have hdocs : ∀ doc ∈ mixed, doc.2.Document ∧ doc.2.Legible := fun doc hdoc =>
    ⟨(by decide +kernel : ∀ doc ∈ mixed, doc.2.Document) doc hdoc, hlegible doc hdoc⟩
  rcases documents_restored "t" 1.5 hdocs with ⟨shredded, s, hshred, hanswer⟩
  have hfact : s.fact = "t" := by
    have hkept := fact_shred { empty "t" with clock := 1.5 } mixed
    rw [hshred] at hkept
    exact hkept
  rcases asksAll_ofJson (show Path.CleanKey "t" by decide) hfact 2.5 with ⟨q, hread, hq⟩
  rcases hanswer q hq with ⟨plan, hplan, _, hassemble⟩
  exact ⟨hdocs, shredded, s, q, plan, hshred, hread, hplan, hassemble⟩

/-- An item that has no content. -/
def sparse : Json := .obj [("a", .arr [.obj [("b", .null)]])]

/-- What comes back is not what is left when all that has no content is left
    out: the array keeps its item. -/
theorem documents_not_pruned :
    ∃ shredded s q plan, { empty "t" with clock := 1.5 }.shred [("x", sparse)] = (.ok shredded, s) ∧
        Query.ofJson 2.5 s.schema (ofFact "t") = .ok q ∧ q.plan s = .ok plan ∧
        plan.assemble q (Plan.documentRows s (shredded.apply fun _ => [])) =
          .ok (.mkObj [Plan.metadata q, ("data", .arr [.obj [("a", .arr [.obj []])]])]) ∧
        (pruned (arraysOf [sparse]).contains Path.root sparse).orEmpty ≠
          .obj [("a", .arr [.obj []])] := by
  have hlegible : sparse.Legible := by
    simp only [sparse, Legible, LegibleFields, LegibleItems, and_true]
    cbv
  have hdocs : ∀ doc ∈ [("x", sparse)], doc.2.Document ∧ doc.2.Legible := fun doc hdoc =>
    ⟨(by decide +kernel : ∀ doc ∈ [("x", sparse)], doc.2.Document) doc hdoc,
      List.mem_singleton.mp hdoc ▸ hlegible⟩
  rcases shred_empty "t" 1.5 fun doc hdoc => (hdocs doc hdoc).1 with
    ⟨shredded, s, next, hshred, hs, hfact, hnested, hstored, hholds⟩
  rcases asksAll_ofJson (show Path.CleanKey "t" by decide) hfact 2.5 with ⟨q, hread, hq⟩
  rcases (hfact ▸ hq).assemble_eq hs hdocs hstored hholds with ⟨plan, hplan, _, hassemble⟩
  rw [hnested] at hassemble
  -- pruning takes the item, and with it the array
  have hpruned : (pruned (arraysOf [sparse]).contains Path.root sparse).orEmpty = .obj [] := rfl
  refine ⟨shredded, s, q, plan, hshred, hread, hplan, hassemble, ?_⟩
  rw [hpruned]
  intro h
  cases h

end Query

end Snowbank
