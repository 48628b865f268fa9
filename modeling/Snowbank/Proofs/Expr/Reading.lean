import Snowbank.Proofs.Ensures
import Snowbank.Proofs.Expr.Tree

/-!
# What Holds of All That Is Read

An operator is read by looking at its name, then at the form of its operands,
and often at their parts. Whatever is to be shown of the expressions that come
out of it, the way through all these forms is the same, so it is gone once and
for any property.

The property is told what a node may hold besides its operands, since not
every tree can be read: a variable is not yet typed, an operator has a name, and
the last value of a choice of clauses is not a choice between two values, which
would be read as one more clause.

## Main definitions

* `IsReadNode`: What a node that is read holds besides its operands.
* `Keeps`: What is asked of a property.

## Theorems

* `Keeps.ofJson`: The property holds of all that is read.
-/

namespace Snowbank

open Option

open Ordered

open List hiding set

variable {ε α β : Type} {x : Except ε α} {y : β} {f : α → Except ε β}

theorem exists_of_map_eq_ok {f : α → β} (h : x.map f = .ok y) : ∃ a, x = .ok a ∧ f a = y := by
  cases x with
  | error e => cases h
  | ok a => exact ⟨a, rfl, Except.ok.inj h⟩

theorem exists_of_bind_eq_ok (h : x.bind f = .ok y) : ∃ a, x = .ok a ∧ f a = .ok y := by
  cases x with
  | error e => cases h
  | ok a => exact ⟨a, rfl, h⟩

theorem exists_of_mapM_eq_ok {xs : List α} {ys : List β}
    (h : xs.mapM f = .ok ys) : ∀ y ∈ ys, ∃ x ∈ xs, f x = .ok y := by
  induction xs generalizing ys with
  | nil =>
    rw [mapM_nil] at h
    cases h
    exact forall_mem_nil _
  | cons x xs ih =>
    rw [mapM_cons] at h
    obtain ⟨y, hy, h⟩ := exists_of_bind_eq_ok h
    obtain ⟨rest, hrest, h⟩ := exists_of_bind_eq_ok h
    cases h
    refine forall_mem_cons.2 ⟨⟨x, mem_cons_self, hy⟩, fun z hz => ?_⟩
    obtain ⟨w, hw, hwz⟩ := ih hrest z hz
    exact ⟨w, mem_cons_of_mem _ hw, hwz⟩

theorem Ordered.isSome_get?_of_mem {κ : Type} [Ord κ] [Std.LawfulEqOrd κ] {key : κ} {value : α}
    {entries : List (κ × α)} (h : (key, value) ∈ entries) : (get? key entries).isSome := by
  induction entries with
  | nil => cases h
  | cons entry rest ih =>
    rw [get?]
    split
    · rfl
    next hne =>
      rcases mem_cons.1 h with rfl | h
      · exact absurd Std.ReflCmp.compare_self hne
      · exact ih h

namespace Expr

/-- The node is a choice between two values. -/
def isWhen : Expr → Bool
  | when _ _ _ => true
  | _ => false

/-- The node is SQL text. -/
def isScript : Expr → Bool
  | script _ => true
  | _ => false

/-- What a node that is read holds besides its operands, with constants of
    which `D` holds. A part of a value is asked for by name. -/
def IsReadNode (D : Json → Prop) : Expr → Prop
  | const value => D value
  | var _ type => type = .object
  | unary op _ => Reading.unary? op.name = some op
  | binary .get _ _ => ∃ fields, D (.obj fields) ∧ "get" ∈ fields.map Prod.fst
  | case _ other => other.isWhen = false
  | member _ set => ∀ v ∈ set, D v
  | rows _ shift => (Json.int shift).int64? = some shift
  | _ => True

namespace Reading

variable {settings : ReadOptions}

/-- The values that occur in a value satisfy `D` with it, as do those that reading makes, and `P`
    goes from the operands of a node that is read to the node. -/
structure Keeps (settings : ReadOptions) (D : Json → Prop) (P : Expr → Prop) : Prop where
  null : D .null
  int : ∀ n, D (.int n)
  computed : ∀ x, D (.ofFloat x)
  constant : ∀ {v}, P (.const v) → D v
  items : ∀ {items}, D (.arr items) → ∀ v ∈ items, D v
  fields : ∀ {fields}, D (.obj fields) → ∀ f ∈ fields, D f.2
  script : ∀ {sql}, settings.allowScript → P (.script sql)
  node : ∀ {e}, e.isScript = false → e.IsReadNode D → (∀ c ∈ e.children, P c) → P e

/-- All values in a reading satisfy `D` and all expressions satisfy `P`; and a
    choice between two values has the key of one. -/
inductive All (D : Json → Prop) (P : Expr → Prop) : Reading → Prop
  | mk {value : Json} {expr : Except ExprError Expr} {items : List Reading}
      {fields : List (String × Reading)} (own : D value) (read : ∀ e, expr = .ok e → P e)
      (named : ∀ e, expr = .ok e → e.isWhen → (get? "when" fields).isSome)
      (parts : ∀ r ∈ items, All D P r) (members : ∀ f ∈ fields, All D P f.2) :
      All D P (.mk value expr items fields)

theorem unary?_name {name : String} {op : Unary} (h : unary? name = some op) :
    unary? op.name = some op := by
  have hname : op.name = name := by
    unfold unary? at h
    split at h <;> cases h <;> rfl
  rw [hname, h]

theorem int64?_int {v : Json} {n : Int} (h : v.int64? = some n) : (Json.int n).int64? = some n := by
  cases v with
  | num x =>
    cases x with
    | int m =>
      have hm : m = n := (ite_none_right_eq_some.1 h).2 |> some.inj
      rw [← hm]
      exact hm ▸ h
    | float x => cases h
  | _ => cases h

theorem exists_of_object {e : Expr} {fields : List (String × Reading)}
    (he : object settings fields = .ok e) :
    ∃ op r, (op, r) ∈ fields ∧ operator settings op r fields = .ok e := by
  unfold object at he
  split at he
  next op r hone =>
    have hmem : (op, r) ∈ [(op, r)] := mem_cons_self
    rw [← hone] at hmem
    exact ⟨op, r, (mem_filter.1 hmem).1, he⟩
  · cases he
  · cases he

section

variable {D : Json → Prop} {P : Expr → Prop} {r : Reading}

section

variable (h : All D P r)
include h

theorem All.value : D r.value := by
  cases h with
  | mk own _ _ _ _ => exact own

theorem All.expr : Ensures P r.expr := by
  cases h with
  | mk _ read _ _ _ => exact read

theorem All.named : Ensures (fun e => e.isWhen → (get? "when" r.fields).isSome) r.expr := by
  cases h with
  | mk _ _ named _ _ => exact named

theorem All.items : ∀ x ∈ r.items, All D P x := by
  cases h with
  | mk _ _ _ parts _ => exact parts

theorem All.fields : ∀ f ∈ r.fields, All D P f.2 := by
  cases h with
  | mk _ _ _ _ members => exact members

end

theorem All.pairs {pairs : List (String × Reading)} (h : All D P r)
    (hpairs : r.pairs? = some pairs) : ∀ f ∈ pairs, All D P f.2 := by
  unfold pairs? at hpairs
  split at hpairs
  · split at hpairs
    · cases hpairs
    · cases hpairs
      exact h.fields
  · cases hpairs

end

namespace Keeps

variable {settings : ReadOptions} {D : Json → Prop} {P : Expr → Prop}
  (keeps : Keeps settings D P)

include keeps

section

variable {r : Reading} {e : Expr}
variable {v : Json}

theorem leaf (hscript : e.isScript = false) (hown : e.IsReadNode D) (h : e.children = []) : P e :=
  keeps.node hscript hown fun c hc => by
    rw [h] at hc
    cases hc

theorem field (path : Path) : P (field path) := keeps.leaf rfl rfl rfl

theorem const (h : D v) : P (const v) := keeps.leaf rfl h rfl

theorem constantOperand (h : All D P r) : Ensures P r.constantOperand := by
  unfold Reading.constantOperand
  split
  · exact h.expr
  · exact .ok (keeps.const h.value)

omit keeps in
theorem operands (h : All D P r) (op : String) :
    Ensures (fun es => ∀ e ∈ es, P e) (r.operands op) := by
  have hone : Ensures (fun es => ∀ e ∈ es, P e) (r.expr.map fun e => [e]) :=
    h.expr.map fun e he => forall_mem_singleton.2 he
  unfold Reading.operands
  split
  · exact .mapM fun x hx => (h.items x hx).expr
  · split
    · exact hone
    · exact .error _
  · exact hone

omit keeps in
theorem operand (h : All D P r) (op : String) : Ensures P (r.operand op) := by
  refine (operands h op).bind fun es hes => ?_
  split
  · exact .ok (hes _ mem_cons_self)
  · exact .error _

theorem pair (h : All D P r) (op : String) :
    Ensures (fun es => P es.1 ∧ P es.2) (r.pair op) := by
  unfold Reading.pair
  split
  next path value hpairs =>
    have hvalue := keeps.constantOperand (h.pairs hpairs _ mem_cons_self)
    exact hvalue.bind fun x hx => .pure ⟨keeps.field path, hx⟩
  · exact .error _
  · refine (operands h op).bind fun es hes => ?_
    split
    · exact .ok ⟨hes _ mem_cons_self, hes _ (mem_cons_of_mem _ mem_cons_self)⟩
    · exact .error _

omit keeps in
theorem triple (h : All D P r) (op : String) :
    Ensures (fun es => P es.1 ∧ P es.2.1 ∧ P es.2.2) (r.triple op) := by
  refine (operands h op).bind fun es hes => ?_
  split
  · simp only [forall_mem_cons] at hes
    exact .ok ⟨hes.1, hes.2.1, hes.2.2.1⟩
  · exact .error _

omit keeps in
theorem option {key : String} {other : Expr} {fields : List (String × Reading)}
    (h : ∀ f ∈ fields, All D P f.2) (hother : P other) :
    Ensures P (Reading.option key other fields) := by
  unfold Reading.option
  split
  next r hfound => exact (h _ (mem_of_get? hfound)).expr
  · exact .ok hother

theorem conjunction {es : List Expr} (h : ∀ e ∈ es, P e ∧ e.isWhen = false) :
    P (conjunction es) ∧ (conjunction es).isWhen = false := by
  unfold Reading.conjunction
  split
  · exact h _ mem_cons_self
  · exact ⟨keeps.node rfl trivial fun e he => (h e he).1, rfl⟩

theorem asList (h : D v) : ∀ w ∈ v.asList, D w := by
  cases v with
  | arr items => exact keeps.items h
  | _ => exact forall_mem_singleton.2 h

end

section

variable {r : Reading} {op : String}

variable {o : Binary} {x : Expr} {options : List (String × Reading)} {fields : Fields}

theorem binary {a b : Expr} (ho : (binary o a b).IsReadNode D) (ha : P a)
    (hb : P b) : P (binary o a b) :=
  keeps.node rfl ho (forall_mem_cons.2 ⟨ha, forall_mem_singleton.2 hb⟩)

theorem member {set : List Json} (hx : P x) (hset : ∀ v ∈ set, D v) : P (member x set) :=
  keeps.node rfl hset (forall_mem_singleton.2 hx)

theorem not (h : P x) : P (not x) := keeps.node rfl rfl (forall_mem_singleton.2 h)

theorem fieldComparison (ho : ∀ a b, (Expr.binary o a b).IsReadNode D)
    (op path : String) (h : All D P r) : Ensures (fun e => P e ∧ e.isWhen = false)
      (fieldComparison op (Expr.binary o) path r) := by
  have hvalue := h.value
  unfold Reading.fieldComparison
  split
  next set hset => exact .ok ⟨keeps.member (keeps.field path) (keeps.items (hset ▸ hvalue)), rfl⟩
  next set hset =>
    exact .ok ⟨keeps.not (keeps.member (keeps.field path) (keeps.items (hset ▸ hvalue))), rfl⟩
  · exact (keeps.constantOperand h).map fun x hx =>
      ⟨keeps.binary (ho _ _) (keeps.field path) hx, rfl⟩

theorem comparison (ho : ∀ a b, (Expr.binary o a b).IsReadNode D) (h : All D P r) :
    Ensures (fun e => P e ∧ e.isWhen = false) (r.comparison op (Expr.binary o)) := by
  unfold Reading.comparison
  split
  next pairs hpairs =>
    have hpart := fun f hf => keeps.fieldComparison ho op f.1 (h.pairs hpairs f hf)
    exact (Ensures.mapM hpart).map fun es hes => keeps.conjunction hes
  · exact (keeps.pair h op).map fun es hes => ⟨keeps.binary (ho _ _) hes.1 hes.2, rfl⟩

theorem constant_own {v : Json} (h : P x) (hv : x.constant? = some v) : D v := by
  unfold constant? at hv
  split at hv
  · cases hv
    exact keeps.constant h
  · cases hv
    exact keeps.computed _
  · cases hv

theorem membership (h : All D P r) :
    Ensures (fun e => P e ∧ e.isWhen = false) (r.membership op) := by
  refine (keeps.pair h op).bind fun es hes => ?_
  dsimp only
  split
  next values hvalues =>
    exact .ok ⟨keeps.member hes.1 (keeps.asList (keeps.constant_own hes.2 hvalues)), rfl⟩
  · exact .error _

theorem rangeOf (path : String) (h : All D P r) :
    Ensures (fun e => P e ∧ e.isWhen = false) (rangeOf path r) := by
  unfold Reading.rangeOf
  split
  · refine Ensures.bind (P := fun bounds => ∀ b ∈ bounds, P b.2) (.mapM fun f hf => ?_)
      fun bounds hbounds => .pure ⟨keeps.node rfl trivial ?_, rfl⟩
    · dsimp only
      split
      · exact (keeps.constantOperand (h.fields f hf)).map fun x hx => hx
      · exact .error _
    · exact forall_mem_cons.2 ⟨keeps.field path, forall_mem_map.2 hbounds⟩
  · exact .error _

theorem ranges (h : All D P r) : Ensures (fun e => P e ∧ e.isWhen = false) r.ranges := by
  unfold Reading.ranges
  split
  next pairs hpairs =>
    have hpart := fun f hf => keeps.rangeOf f.1 (h.pairs hpairs f hf)
    exact (Ensures.mapM hpart).map fun es hes => keeps.conjunction hes
  · exact .error _

/-- The last value of a choice of clauses has no condition of its own. -/
theorem clauses {rs : List Reading} (h : ∀ r ∈ rs, All D P r) :
    Ensures (fun cs => (∀ c ∈ cs.1, P c.1 ∧ P c.2) ∧ P cs.2 ∧ cs.2.isWhen = false)
      (clauses rs) := by
  induction rs with
  | nil => exact .ok ⟨forall_mem_nil _, keeps.const keeps.null, rfl⟩
  | cons r rest ih =>
    rw [forall_mem_cons] at h
    rw [Reading.clauses]
    split
    next cond hcond =>
      refine (h.1.fields _ (mem_of_get? hcond)).expr.bind fun x hx => ?_
      refine (option h.1.fields (keeps.const keeps.null)).bind fun y hy => ?_
      exact (ih h.2).bind fun more hmore =>
        .pure ⟨forall_mem_cons.2 ⟨⟨hx, hy⟩, hmore.1⟩, hmore.2⟩
    next hnone =>
      split
      · intro cs hcs
        obtain ⟨x, hx, rfl⟩ := exists_of_map_eq_ok hcs
        refine ⟨forall_mem_nil _, h.1.expr x hx, ?_⟩
        rw [← Bool.not_eq_true]
        intro hwhen
        have hsome := h.1.named x hx hwhen
        rw [hnone] at hsome
        cases hsome
      · exact .error _

section

variable (h : All D P r)
include h

theorem caseOf : Ensures (fun e => P e ∧ e.isWhen = false) r.caseOf := by
  unfold Reading.caseOf
  split
  · refine (keeps.clauses h.items).map fun cs hcs => ⟨keeps.node rfl hcs.2.2 ?_, rfl⟩
    refine forall_mem_append.2 ⟨fun c hc => ?_, forall_mem_singleton.2 hcs.2.1⟩
    obtain ⟨clause, hclause, hc⟩ := mem_flatMap.1 hc
    have hparts := hcs.1 clause hclause
    simp only [mem_cons, not_mem_nil, or_false] at hc
    rcases hc with rfl | rfl
    · exact hparts.1
    · exact hparts.2
  · exact .error _

theorem delimited : Ensures (fun es => P es.1 ∧ P es.2.1 ∧ P es.2.2) r.delimited := by
  unfold Reading.delimited
  split
  next path bounds hpairs =>
    have hvalue := (h.pairs hpairs _ mem_cons_self).value
    split
    next x y hbounds =>
      rw [hbounds] at hvalue
      have hitems := keeps.items hvalue
      exact .ok ⟨keeps.field path, keeps.const (hitems _ mem_cons_self),
        keeps.const (hitems _ (mem_cons_of_mem _ mem_cons_self))⟩
    · exact .error _
    · exact .error _
  · exact .error _
  · exact triple h _

theorem selected : Ensures (fun f => P f.2) r.selected := by
  unfold Reading.selected
  split
  · exact .ok (keeps.field _)
  · split
    · exact (option h.fields (keeps.field _)).map fun x hx => hx
    · exact .error _
  · exact .error _

theorem selection : Ensures (fun e => P e ∧ e.isWhen = false) r.selection := by
  have hparts : ∀ parts : List Reading, (∀ x ∈ parts, All D P x) →
      Ensures (fun e => P e ∧ e.isWhen = false) ((parts.mapM Reading.selected).map select) :=
    fun parts hparts => (Ensures.mapM fun x hx => keeps.selected (hparts x hx)).map fun fs hfs =>
      ⟨keeps.node rfl trivial (forall_mem_map.2 hfs), rfl⟩
  unfold Reading.selection
  split
  · exact hparts _ h.items
  · exact hparts _ (forall_mem_singleton.2 h)

end

theorem rowsOf : Ensures (fun e => P e ∧ e.isWhen = false) r.rowsOf := by
  refine .after fun pair => ?_
  split
  · split
    next shift hshift =>
      obtain ⟨v, -, hv⟩ := bind_eq_some_iff.1 hshift
      exact .ok ⟨keeps.leaf rfl (int64?_int hv) rfl, rfl⟩
    · exact .error _
  · exact .error _

omit keeps in
/-- What is no choice between two values is read from any operator. -/
theorem unnamed {x : Except ExprError Expr}
    (h : Ensures (fun e => P e ∧ e.isWhen = false) x) :
    Ensures (fun e => P e ∧ (e.isWhen → op = "when")) x :=
  h.imp fun _ he => ⟨he.1, fun hwhen => Bool.noConfusion (he.2.symm.trans hwhen)⟩

/-- Every operator of its own form keeps the property, and a choice between two
    values is read from its own operator only. -/
theorem special (h : All D P r) (ho : ∀ f ∈ options, All D P f.2) :
    Ensures (fun e => P e ∧ (e.isWhen → op = "when")) (special settings op r options) := by
  have hnull : P Expr.null := keeps.const keeps.null
  have hzero : P (Expr.int 0) := keeps.const (keeps.int 0)
  have hthree : ∀ {e a b c : Expr}, e.children = [a, b, c] → e.isScript = false → e.IsReadNode D →
      P a ∧ P b ∧ P c → P e := by
    intro e a b c hkids hscript hown hparts
    refine keeps.node hscript hown ?_
    simp only [hkids, forall_mem_cons, not_mem_nil, false_imp_iff, implies_true]
    exact ⟨hparts.1, hparts.2.1, hparts.2.2, trivial⟩
  -- the cases stand in the order in which names are looked at
  unfold Reading.special
  split
  · exact unnamed (.ok ⟨keeps.const h.value, rfl⟩)
  · split
    · exact unnamed (.ok ⟨keeps.leaf rfl trivial rfl, rfl⟩)
    · exact .error _
  · split
    next hallow =>
      split
      · exact unnamed (.ok ⟨keeps.script hallow, rfl⟩)
      · exact .error _
    · exact .error _
  · split
    · exact unnamed (.ok ⟨keeps.leaf rfl trivial rfl, rfl⟩)
    · exact .error _
  · refine h.expr.bind fun c hc => (option ho hnull).bind fun x hx => ?_
    exact (option ho hnull).bind fun y hy =>
      .pure ⟨hthree rfl rfl trivial ⟨hc, hx, hy⟩, fun _ => rfl⟩
  · exact unnamed (keeps.caseOf h)
  · exact unnamed (keeps.membership h)
  · exact unnamed ((keeps.membership h).map fun x hx => ⟨keeps.not hx.1, rfl⟩)
  · exact unnamed (keeps.ranges h)
  · refine unnamed ((operands h _).bind fun terms hterms =>
      (option ho hnull).bind fun other hother => ?_)
    exact .pure ⟨keeps.node rfl trivial (forall_mem_append.2
      ⟨hterms, forall_mem_singleton.2 hother⟩), rfl⟩
  · refine unnamed ((keeps.pair h _).bind fun es hes =>
      (option ho hzero).bind fun start hstart => ?_)
    refine (option ho hnull).bind fun other hother => .pure ⟨keeps.node rfl trivial ?_, rfl⟩
    simp only [children, forall_mem_cons, not_mem_nil, false_imp_iff, implies_true]
    exact ⟨hes.1, hes.2, hstart, hother, trivial⟩
  · refine unnamed ((keeps.pair h _).bind fun es hes => ?_)
    dsimp only
    split
    · exact .ok ⟨keeps.node rfl trivial (forall_mem_singleton.2 hes.1), rfl⟩
    · exact .error _
  · refine unnamed ((keeps.delimited h).bind fun es hes =>
      (option ho hzero).bind fun start hstart => ?_)
    refine (option ho hnull).bind fun other hother => .pure ⟨keeps.node rfl trivial ?_, rfl⟩
    simp only [children, forall_mem_cons, not_mem_nil, false_imp_iff, implies_true]
    exact ⟨hes.1, hes.2.1, hes.2.2, hstart, hother, trivial⟩
  · split
    · exact unnamed (.ok ⟨keeps.leaf rfl trivial rfl, rfl⟩)
    · exact .error _
  · exact unnamed (keeps.selection h)
  · exact unnamed keeps.rowsOf
  · exact unnamed ((triple h _).map fun es hes => ⟨hthree rfl rfl trivial hes, rfl⟩)
  · exact unnamed ((triple h _).map fun es hes => ⟨hthree rfl rfl trivial hes, rfl⟩)
  · exact .error _

theorem operator (hobj : D (.obj fields))
    (hmem : op ∈ fields.map Prod.fst) (h : All D P r) (ho : ∀ f ∈ options, All D P f.2) :
    Ensures (fun e => P e ∧ (e.isWhen → op = "when")) (operator settings op r options) := by
  have hnull : P Expr.null := keeps.const keeps.null
  unfold Reading.operator
  split
  next hop =>
    exact unnamed ((operand h _).map fun x hx =>
      ⟨keeps.node rfl (unary?_name hop) (forall_mem_singleton.2 hx), rfl⟩)
  next hop _ =>
    refine unnamed ((keeps.pair h _).map fun es hes => ⟨keeps.binary ?_ hes.1 hes.2, rfl⟩)
    unfold binary? at hop
    split at hop <;> cases hop <;> first | trivial | exact ⟨fields, hobj, hmem⟩
  next hop _ _ =>
    refine unnamed (keeps.comparison (fun a b => ?_) h)
    unfold comparison? at hop
    split at hop <;> cases hop <;> trivial
  · exact unnamed ((operands h _).map fun terms hterms => ⟨keeps.node rfl trivial hterms, rfl⟩)
  · refine unnamed ((keeps.pair h _).bind fun es hes =>
      (option ho hnull).bind fun other hother => ?_)
    exact .pure ⟨keeps.node rfl trivial (forall_mem_cons.2 ⟨hes.1, forall_mem_cons.2
      ⟨hes.2, forall_mem_singleton.2 hother⟩⟩), rfl⟩
  · refine unnamed ((operands h _).bind fun terms hterms =>
      (option ho hnull).bind fun other hother => ?_)
    exact .pure ⟨keeps.node rfl trivial (forall_mem_append.2
      ⟨hterms, forall_mem_singleton.2 hother⟩), rfl⟩
  · exact keeps.special h ho

omit keeps in
theorem map_fst_ofFields (fields : Fields) :
    (ofFields settings fields).map Prod.fst = fields.map Prod.fst := by
  induction fields with
  | nil => rfl
  | cons f rest ih => rw [ofFields, map_cons, map_cons, ih]

/-- An object is read as one of its fields, and as a choice between two values
    only if it has the key of one. -/
theorem object (hobj : D (.obj fields)) (h : ∀ f ∈ ofFields settings fields, All D P f.2) :
    Ensures (fun e => P e ∧
        (e.isWhen → (get? "when" (ofFields settings fields)).isSome))
      (object settings (ofFields settings fields)) := by
  intro e he
  obtain ⟨op, r, hmem, he⟩ := exists_of_object he
  have hname : op ∈ (ofFields settings fields).map Prod.fst := mem_map_of_mem hmem
  rw [map_fst_ofFields] at hname
  rcases keeps.operator hobj hname (h (op, r) hmem) h e he with ⟨hkept, hwhen⟩
  exact ⟨hkept, fun h => isSome_get?_of_mem (hwhen h ▸ hmem)⟩

end

end Keeps

section

variable {D : Json → Prop} {P : Expr → Prop}

mutual

theorem Keeps.all_ofJson (keeps : Keeps settings D P) (v : Json) (hv : D v) :
    All D P (Reading.ofJson settings v) :=
  match v with
  | .null | .bool _ | .num _ => by
    refine .mk hv (fun e he => ?_) (fun e he hwhen => ?_) (forall_mem_nil _) (forall_mem_nil _)
    · cases he
      exact keeps.const hv
    · cases he
      cases hwhen
  | .str path => by
    refine .mk hv (fun e he => ?_) (fun e he hwhen => ?_) (forall_mem_nil _) (forall_mem_nil _)
    · cases he
      exact keeps.field path
    · cases he
      cases hwhen
  | .arr items => by
    have hitems := keeps.all_ofItems items (keeps.items hv)
    refine .mk hv (fun e he => ?_) (fun e he hwhen => ?_) hitems (forall_mem_nil _)
    · obtain ⟨es, hes, rfl⟩ := exists_of_map_eq_ok he
      refine keeps.node rfl trivial (fun x hx => ?_)
      obtain ⟨r, hr, hrx⟩ := exists_of_mapM_eq_ok hes x hx
      exact (hitems r hr).expr x hrx
    · obtain ⟨es, -, rfl⟩ := exists_of_map_eq_ok he
      cases hwhen
  | .obj fields => by
    have hfields := keeps.all_ofFields fields (keeps.fields hv)
    exact .mk hv (fun e he => (keeps.object hv hfields e he).1)
      (fun e he => (keeps.object hv hfields e he).2) (forall_mem_nil _) hfields

theorem Keeps.all_ofItems (keeps : Keeps settings D P) (items : List Json)
    (hitems : ∀ v ∈ items, D v) :
    ∀ r ∈ ofItems settings items, All D P r :=
  match items with
  | [] => fun r hr => by
    cases hr
  | x :: xs => by
    rw [forall_mem_cons] at hitems
    rw [ofItems, forall_mem_cons]
    exact ⟨keeps.all_ofJson x hitems.1, keeps.all_ofItems xs hitems.2⟩

theorem Keeps.all_ofFields (keeps : Keeps settings D P) (fields : List (String × Json))
    (hfields : ∀ f ∈ fields, D f.2) :
    ∀ f ∈ ofFields settings fields, All D P f.2 :=
  match fields with
  | [] => fun f hf => by
    cases hf
  | (key, x) :: rest => by
    rw [forall_mem_cons] at hfields
    rw [ofFields, forall_mem_cons]
    exact ⟨keeps.all_ofJson x hfields.1, keeps.all_ofFields rest hfields.2⟩

end

theorem Keeps.ofJson (keeps : Keeps settings D P) {v : Json} {e : Expr} (hv : D v)
    (h : Expr.ofJson settings v = .ok e) : P e :=
  (keeps.all_ofJson v hv).expr e h

end

/-- All that is read is made of nodes that can be read. -/
theorem keeps_readNodes {D : Json → Prop} (null : D .null)
    (int : ∀ n, D (.int n)) (computed : ∀ x, D (.ofFloat x))
    (items : ∀ {items}, D (.arr items) → ∀ v ∈ items, D v)
    (fields : ∀ {fields}, D (.obj fields) → ∀ f ∈ fields, D f.2) :
    Keeps settings D fun e => ∀ n ∈ e.nodes, n.IsReadNode D where
  null := null
  int := int
  computed := computed
  constant {v} h := h (.const v) (by rw [nodes_eq]; exact mem_cons_self)
  items := items
  fields := fields
  script _ := forall_mem_nodes.2 ⟨trivial, forall_mem_nil _⟩
  node _ hown hkids := forall_mem_nodes.2 ⟨hown, hkids⟩

end Reading

end Expr

end Snowbank
