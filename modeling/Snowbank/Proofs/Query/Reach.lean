import Snowbank.Proofs.Expr.Reading
import Snowbank.Proofs.Query.Holds

/-!
# What a Query Reads of Its Rows

Groups, edges, windows and sort keys need one value for each row of a query, so
the paths in them are checked: none may lie in an array that the query does not
go into. The check is made before expressions are simplified. Simplifying makes
no variable of another path, with one exception: a part of a field, asked for by
its key, becomes a variable of the path of that part.

## Main definitions

* `lacks`: No object in the value has the key.
* `singleValued`: The expressions that need one value for each row.

## Theorems

* `depth_checked`: Where no part is asked for, the check is complete.
-/

namespace Snowbank

open List Ordered

namespace Json

mutual

/-- No object in the value has the key. -/
def lacks (key : String) : Json → Bool
  | .arr items => lacksInItems key items
  | .obj fields => lacksInFields key fields
  | _ => true

/-- No object in the items has the key. -/
def lacksInItems (key : String) : List Json → Bool
  | [] => true
  | x :: xs => x.lacks key && lacksInItems key xs

/-- None of the fields has the key, and no object in them. -/
def lacksInFields (key : String) : List (String × Json) → Bool
  | [] => true
  | (k, x) :: rest => k != key && x.lacks key && lacksInFields key rest

end

variable {key : String}

theorem lacks_item {items : List Json} (h : (arr items).lacks key) : ∀ v ∈ items, v.lacks key := by
  rw [lacks] at h
  induction items with
  | nil => exact forall_mem_nil _
  | cons x xs ih =>
    rw [lacksInItems, Bool.and_eq_true] at h
    exact forall_mem_cons.2 ⟨h.1, ih h.2⟩

theorem lacks_field {fields : Fields} (h : (obj fields).lacks key) :
    ∀ f ∈ fields, f.1 ≠ key ∧ f.2.lacks key := by
  rw [lacks] at h
  induction fields with
  | nil => exact forall_mem_nil _
  | cons f rest ih =>
    simp only [lacksInFields, Bool.and_eq_true, bne_iff_ne] at h
    exact forall_mem_cons.2 ⟨h.1, ih h.2⟩

theorem lacks_ofFloat (x : Float) : (ofFloat x).lacks key := by
  unfold ofFloat float
  split
  · rfl
  · split <;> rfl

end Json

namespace Expr

/-- The node asks for no part of a field, and if it reads a path then `ok` holds of it. -/
def ReadsOnly (ok : Path → Prop) : Expr → Prop
  | var path _ | leaves path | rows path _ => ok path
  | binary .get _ _ => False
  | _ => True

variable {ok : Path → Prop} {e : Expr}

instance : Inherited (ReadsOnly ok) where
  operator {e} h := by
    cases e with
    | var | leaves | rows => cases h
    | binary op a b =>
      cases op with
      | get => cases h
      | _ => trivial
    | _ => trivial
  get h := h.elim

theorem binds_readsOnly (s : Schema) : Binds s (ReadsOnly ok) where
  column h := over_bind (fun _ => h) s _
  rows h := over_bind (fun _ => h) s _

theorem Over.ok_of_mem_vars (h : e.Over (ReadsOnly ok)) {path : Path} (hpath : path ∈ e.vars) :
    ok path := by
  obtain ⟨n, hn, hread⟩ := mem_filterMap.1 (mem_elems.1 hpath)
  have hnode := h n hn
  unfold path? at hread
  split at hread <;> cases hread <;> exact hnode

/-- What is read without the operator for parts of fields asks for none. -/
theorem readsOnly_ofJson {settings : ReadOptions} {v : Json} (hv : v.lacks "get" = true)
    (h : ofJson settings v = .ok e) : e.Over (ReadsOnly (· ∈ e.vars)) := by
  have hnodes :=
    (Reading.keeps_readNodes (D := fun v => v.lacks "get" = true) rfl (fun _ => rfl)
    Json.lacks_ofFloat Json.lacks_item
    fun h f hf => (Json.lacks_field h f hf).2).ofJson hv h
  intro n hn
  have hread : ∀ path, n.path? = some path → path ∈ e.vars :=
    fun path hpath => mem_elems.2 (mem_filterMap.2 ⟨n, hn, hpath⟩)
  have hnode := hnodes n hn
  cases n with
  | var path | leaves path | rows path => exact hread path rfl
  | binary op a b =>
    cases op with
    | get =>
      obtain ⟨fields, hlacks, hmem⟩ := hnode
      obtain ⟨f, hf, hkey⟩ := mem_map.1 hmem
      exact (Json.lacks_field hlacks f hf).1 hkey
    | _ => trivial
  | _ => trivial

end Expr

namespace Perspective

variable {p : Perspective} {reach : Reach}

theorem located {paths : List Path} {names : List (Path × Path)}
    (h : paths.mapM (p.locate reach) = .ok names) :
    names.map Prod.fst = paths ∧ ∀ n ∈ names, p.reaches reach n.2 := by
  induction paths generalizing names with
  | nil =>
    cases h
    exact ⟨rfl, forall_mem_nil _⟩
  | cons path rest ih =>
    rw [mapM_cons] at h
    obtain ⟨name, hname, h⟩ := exists_of_bind_eq_ok h
    obtain ⟨more, hmore, h⟩ := exists_of_bind_eq_ok h
    cases h
    obtain ⟨full, -, hname⟩ := exists_of_bind_eq_ok hname
    split at hname
    next hreached =>
      cases hname
      exact ⟨congrArg (path :: ·) (ih hmore).1, forall_mem_cons.2 ⟨hreached, (ih hmore).2⟩⟩
    · cases hname

theorem readsOnly_expr {v : Json} (hv : v.lacks "get" = true) :
    Ensures (·.Over (Expr.ReadsOnly fun path => p.reaches reach path)) (p.expr reach v) := by
  refine Ensures.map (P := (·.Over (Expr.ReadsOnly fun path => p.reaches reach path))) ?_
    fun e he => he.simplify (Expr.binds_readsOnly _)
  unfold resolved
  split
  · exact .throw _
  next e he =>
    refine Ensures.bind (P := fun names => names.map Prod.fst = e.vars ∧
      ∀ n ∈ names, p.reaches reach n.2) (fun names => located) fun names hnames => .pure ?_
    -- every path that the expression reads has a name, and that is one that is reached
    have hread : ∀ path ∈ e.vars, p.reaches reach ((get? path names).getD path) := by
      intro path hpath
      rw [← hnames.1] at hpath
      obtain ⟨name, hmem, rfl⟩ := mem_map.1 hpath
      obtain ⟨full, hfull⟩ := Option.isSome_iff_exists.1 (isSome_get?_of_mem hmem)
      rw [hfull]
      exact hnames.2 _ (mem_of_get? hfull)
    refine (Expr.readsOnly_ofJson hv he).mapLeaves (fun n hleaf hn => ?_) (fun h => h.elim)
    rw [Expr.over_iff]
    unfold Expr.mapPath
    split
    · exact ⟨hread _ hn, forall_mem_nil _⟩
    · exact ⟨hread _ hn, forall_mem_nil _⟩
    · exact ⟨hread _ hn, forall_mem_nil _⟩
    · refine ⟨?_, by rw [hleaf]; exact forall_mem_nil _⟩
      cases n with
      | var | leaves | rows => simp_all
      | binary => cases hleaf
      | _ => trivial

theorem reads_checked (p : Perspective) : p.Reads (fun v => v.lacks "get" = true)
    (·.Over (Expr.ReadsOnly fun path => p.reaches .shallow path)) (fun _ => True) where
  text _ := rfl
  items := Json.lacks_item
  fields h f hf := (Json.lacks_field h f hf).2
  shallow _ := readsOnly_expr
  deep _ _ _ _ := trivial
  filter _ _ _ _ := trivial
  always := trivial
  whole := trivial
  leaves := trivial
  weaken _ := trivial
  numeric := Expr.Over.numericOnly
  numericDeep _ := trivial

end Perspective

namespace Query

/-- The expressions that need one value for each row: groups, edges, windows,
    and sort keys that name no column of the answer. -/
def singleValued (q : Query) : List Expr :=
  q.groupby.map GroupBy.value ++ q.edges.map Edge.value ++ q.window.flatMap Window.exprs ++
    (q.sort.filter fun k => k.column.isNone).map SortKey.value

/-- The check of depths is complete for queries that ask for no part of a field
    by its key: no group, edge, window or sort key of their own reads a value
    from an array that the query path does not lie in. -/
theorem depth_checked {s : Snowflake} {now : Float} {jx : Json} {q : Query}
    (hread : Query.ofJson now s.schema jx = .ok q) (hget : jx.lacks "get" = true) :
    ∀ e ∈ q.singleValued, ∀ path ∈ e.vars, path ≠ Path.root →
      q.queryPath.isUnder (s.nestedPathOf path) = true := by
  have hholds := holds_ofJson (fun _ => Perspective.reads_checked _) hget q hread
  intro e he path hpath hroot
  have hover : e.Over (Expr.ReadsOnly fun path =>
      Perspective.reaches ⟨s.schema, q.queryPath, now⟩ .shallow path = true) := by
    revert e
    simp only [singleValued, List.forall_mem_append, List.forall_mem_map, List.forall_mem_flatMap]
    refine ⟨⟨⟨?_, ?_⟩, ?_⟩, ?_⟩
    · exact fun g hg _ => hholds.groupby g hg
    · exact fun e he _ => hholds.edges e he
    · exact fun w hw e he _ => hholds.window w hw e he
    · intro k hk _
      rw [List.mem_filter, Option.isNone_iff_eq_none] at hk
      exact (hholds.sort k hk.1).2 hk.2
  have hreached := hover.ok_of_mem_vars hpath
  simpa [Perspective.reaches, hroot, Snowflake.schema] using hreached

/-- A catalog with an array of documents. -/
def visits : Snowflake := ((Snowflake.empty "t").shred
    [("x", .obj [("a", .arr [.obj [("b", .int 1)], .obj [("b", .int 2)]]), ("c", .str "s")])]).2

/-- A question about its items that groups them by a field of the documents
    around them, and sorts. -/
def byVisitor : Json :=
  .obj [("from", .str "t.a"), ("groupby", .arr [.str "c", .str "b"]), ("sort", .str "b")]

theorem depth_checked_byVisitor : ∃ q, Query.ofJson 2.5 visits.schema byVisitor = .ok q ∧
    byVisitor.lacks "get" = true ∧ q.queryPath = "a" ∧ q.singleValued.length = 2 ∧
    ∀ e ∈ q.singleValued, ∀ path ∈ e.vars, path ≠ Path.root →
      q.queryPath.isUnder (visits.nestedPathOf path) = true := by
  have hlacks : byVisitor.lacks "get" = true := by decide
  have hshape : (Query.ofJson 2.5 visits.schema byVisitor).toOption.map
      (fun q => (q.queryPath, q.singleValued.length)) = some ("a", 2) := by decide +kernel
  rcases Option.map_eq_some_iff.mp hshape with ⟨q, hq, hparts⟩
  cases hread : Query.ofJson 2.5 visits.schema byVisitor with
  | error e =>
    rw [hread] at hq
    cases hq
  | ok r =>
    rw [hread] at hq
    cases hq
    exact ⟨_, rfl, hlacks, congrArg Prod.fst hparts, congrArg Prod.snd hparts,
      depth_checked hread hlacks⟩

end Query

end Snowbank
