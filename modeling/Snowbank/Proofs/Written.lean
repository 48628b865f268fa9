import Snowbank.Proofs.Expr.Reading
import Snowbank.Proofs.Number.Whole

/-!
# Reading What Is Written

There are many ways to give an operator its operands, and only one way in which
they are written: an array, with options beside it as further keys. What has to
hold is that nothing written so is taken for another of the forms. A single
operand is never an array, and where it is an object it is an operator and not a
field with a constant; the last value of a choice is no clause, because it would
have been read as one; and an option that was left out is the one that is taken
without it.

Ranges are the one kind of node that has no form of its own. They are written as
the comparisons they stand for, and come back as those. Moments are written as
numbers, so one that is not finite has no form at all.

Equality is that of trees. The moments zero and minus zero are written alike.

## Main definitions

* `expanded`: The expression with ranges as comparisons.
* `Rereads`: What is written is read as the expanded expression.

## Theorems

* `ofJson_toJson`: What was read and written is read as the same.
* `ofJson_toJson_date`: A moment that is not finite is not read back.
-/

namespace Snowbank

open List hiding set

variable {e : Expr} {options : Fields} {D : Json → Prop} {cs : List (Expr × Expr)} {path : Path}
  {key : String} {p : String → Bool}

namespace Ordered

section

variable {α β : Type}

theorem filter_insert_of_not (h : p key = false) (value : α) (entries : List (String × α)) :
    (insert key value entries).filter (fun f => p f.1) = entries.filter fun f => p f.1 := by
  induction entries with
  | nil => rw [insert, filter_cons_of_neg (by rw [h]; exact Bool.false_ne_true)]
  | cons entry rest ih =>
    obtain ⟨k, v⟩ := entry
    rw [insert]
    split
    · rw [filter_cons_of_neg (by rw [h]; exact Bool.false_ne_true)]
    next heq =>
      have hk : key = k := Std.LawfulEqCmp.eq_of_compare heq
      rw [filter_cons_of_neg (by rw [h]; exact Bool.false_ne_true),
        filter_cons_of_neg (by rw [← hk, h]; exact Bool.false_ne_true)]
    · rw [filter_cons, filter_cons, ih]

theorem filter_foldl_insert_of_not {entries : List (String × α)}
    (h : ∀ f ∈ entries, p f.1 = false) (first : List (String × α)) :
    (entries.foldl (fun map (k, v) => insert k v map) first).filter (fun f => p f.1) =
      first.filter fun f => p f.1 := by
  induction entries generalizing first with
  | nil => rfl
  | cons entry rest ih =>
    rw [forall_mem_cons] at h
    rw [foldl_cons, ih h.2, filter_insert_of_not h.1]

theorem get?_map (g : α → β) (key : String) (entries : List (String × α)) :
    get? key (entries.map fun f => (f.1, g f.2)) = (get? key entries).map g := by
  induction entries with
  | nil => rfl
  | cons entry rest ih =>
    rw [map_cons, get?, get?]
    split
    · rfl
    · exact ih

/-- What is read at a key after further entries have been written depends on
    the first ones only at that key. -/
theorem get?_foldl_insert {first other : List (String × α)}
    (h : get? key first = get? key other) (entries : List (String × α)) :
    get? key (entries.foldl (fun map (k, v) => insert k v map) first) =
      get? key (entries.foldl (fun map (k, v) => insert k v map) other) := by
  induction entries generalizing first other with
  | nil => exact h
  | cons entry rest ih =>
    rw [foldl_cons, foldl_cons]
    refine ih ?_
    rw [get?_insert, get?_insert, h]

end

end Ordered

/-- A finite number of seconds is a moment that equals it. -/
theorem Moment.exists_ofJson_ofFloat (now : Float) {x : Float} (h : x.isFinite) :
    ∃ y, Moment.ofJson now (.ofFloat x) = .ok y ∧ (y == x) := by
  unfold Json.ofFloat
  split
  next hwhole =>
    rw [Bool.and_eq_true, Bool.and_eq_true, decide_eq_true_iff] at hwhole
    exact ⟨_, rfl, Double.ofInt_wholePart h hwhole.1.2 hwhole.2⟩
  · rw [Json.float, if_pos h]
    exact ⟨x, rfl, Double.beq_self x (Double.isNaN_of_isFinite h)⟩

namespace Expr

namespace Reading

variable {settings : ReadOptions}

@[simp] theorem value_ofJson (v : Json) : (ofJson settings v).value = v := by
  cases v <;> rfl

theorem ofItems_eq_map (items : List Json) :
    ofItems settings items = items.map (ofJson settings) := by
  induction items with
  | nil => rfl
  | cons x xs ih => rw [ofItems, ih, map_cons]

theorem ofFields_eq_map (fields : Fields) :
    ofFields settings fields = fields.map fun f => (f.1, ofJson settings f.2) := by
  induction fields with
  | nil => rfl
  | cons f rest ih => rw [ofFields, ih, map_cons]

/-- The readings of the fields of an object with its operator. -/
def fieldsOf (settings : ReadOptions) (op : String) (x : Json) (options : Fields) :
    List (String × Reading) :=
  (Ordered.ofList ((op, x) :: options)).map fun f => (f.1, ofJson settings f.2)

theorem fields_written (op : String) (x : Json) (options : Fields) :
    (ofJson settings (written op x options)).fields = fieldsOf settings op x options := by
  rw [written, Json.mkObj, ofJson, fields, ofFields_eq_map, fieldsOf]

section

variable {op : String} (hop : isOperatorKey op) (ho : ∀ o ∈ options, isOperatorKey o.1 = false)
  (x : Json)
include hop ho x

theorem filter_written :
    (Ordered.ofList ((op, x) :: options)).filter (fun f => isOperatorKey f.1) = [(op, x)] := by
  refine (Ordered.filter_foldl_insert_of_not ho [(op, x)]).trans ?_
  simp [hop]

theorem expr_written : (ofJson settings (written op x options)).expr =
      operator settings op (ofJson settings x) (fieldsOf settings op x options) := by
  have hone : (fieldsOf settings op x options).filter (fun f => isOperatorKey f.1) =
      [(op, ofJson settings x)] := by
    rw [fieldsOf, filter_map]
    exact congrArg (List.map fun f => (f.1, ofJson settings f.2)) (filter_written hop ho x)
  rw [written, Json.mkObj, ofJson, ofFields_eq_map]
  unfold object
  split
  next op' r heq =>
    cases heq.symm.trans hone
    rfl
  next heq => cases heq.symm.trans hone
  next heq => cases heq.symm.trans hone

end

/-- An option is the reading of what was written for it. -/
theorem get?_fieldsOf {op : String} (hne : key ≠ op) (x : Json) (options : Fields) :
    Ordered.get? key (fieldsOf settings op x options) =
      (Ordered.get? key (Ordered.ofList options)).map (ofJson settings) := by
  rw [fieldsOf, Ordered.get?_map]
  exact congrArg (Option.map (ofJson settings))
    (Ordered.get?_foldl_insert (Ordered.get?_insert_of_ne hne x []) options)

theorem option_written {op : String} (hne : key ≠ op) (other : Expr) (x : Json)
    (options : Fields) : option key other (fieldsOf settings op x options) =
      match Ordered.get? key (Ordered.ofList options) with
      | some v => (ofJson settings v).expr
      | none => .ok other := by
  rw [option, get?_fieldsOf hne]
  cases Ordered.get? key (Ordered.ofList options) <;> rfl

section

variable {op : String} {a b c : Json} {x y z : Expr}

theorem pairs?_arr (items : List Json) : (ofJson settings (.arr items)).pairs? = none := rfl

theorem operands_arr (op : String) (items : List Json) :
    (ofJson settings (.arr items)).operands op = (items.map (ofJson settings)).mapM expr := by
  rw [← ofItems_eq_map]
  rfl

section

variable (ha : (ofJson settings a).expr = .ok x) (hb : (ofJson settings b).expr = .ok y)
include ha hb

theorem pair_arr : (ofJson settings (.arr [a, b])).pair op = .ok (x, y) := by
  rw [pair, pairs?_arr, operands_arr]
  simp only [map_cons, map_nil, mapM_cons, mapM_nil, ha, hb]
  rfl

theorem triple_arr (hc : (ofJson settings c).expr = .ok z) :
    (ofJson settings (.arr [a, b, c])).triple op = .ok (x, y, z) := by
  rw [triple, operands_arr]
  simp only [map_cons, map_nil, mapM_cons, mapM_nil, ha, hb, hc]
  rfl

theorem delimited_arr (hc : (ofJson settings c).expr = .ok z) :
    (ofJson settings (.arr [a, b, c])).delimited = .ok (x, y, z) := by
  rw [delimited, pairs?_arr]
  exact triple_arr ha hb hc

end

end

section

variable {r : Reading} {options : List (String × Reading)}

theorem operator_unary {op : Unary} (h : unary? op.name = some op) :
    operator settings op.name r options = (r.operand op.name).map (unary op) := by
  simp [operator, h]

theorem comparison_of_array (op : String) (build : Expr → Expr → Expr) (h : r.pairs? = none) :
    r.comparison op build = (r.pair op).map fun p => build p.1 p.2 := by
  rw [comparison, h]

theorem operator_binary (op : Binary) (h : r.pairs? = none) :
    operator settings op.name r options = (r.pair op.name).map fun p => binary op p.1 p.2 := by
  cases op with
  | eq | ne => exact comparison_of_array _ _ h
  | compare op => cases op <;> exact comparison_of_array _ _ h
  | side op | basicCompare op => cases op <;> rfl
  | _ => rfl

theorem operator_nary (op : Nary) :
    operator settings op.name r options = (r.operands op.name).map (nary op) := by
  cases op <;> rfl

theorem operator_arith (op : Arith) :
    operator settings op.name r options = (r.pair op.name).bind fun p =>
      (option "default" null options).map fun other => arith op p.1 p.2 other := by
  cases op <;> rfl

theorem operator_fold (op : Fold) :
    operator settings op.name r options = (r.operands op.name).bind fun terms =>
      (option "default" null options).map fun other =>
        fold op terms (((Ordered.get? "nulls" options).bind (·.value.bool?)).getD false) other := by
  cases op <;> rfl

theorem operator_concat :
    operator settings "concat" r options = (r.operands "concat").bind fun terms =>
      (option "default" null options).map fun other =>
        concat terms (((Ordered.get? "separator" options).bind (·.value.str?)).getD "") other :=
  rfl

theorem operator_find : operator settings "find" r options = (r.pair "find").bind fun p =>
      (option "start" (int 0) options).bind fun start =>
        (option "default" null options).map fun other => find p.1 p.2 start other :=
  rfl

theorem operator_between : operator settings "between" r options = r.delimited.bind fun p =>
      (option "start" (int 0) options).bind fun start =>
        (option "default" null options).map fun other => between p.1 p.2.1 p.2.2 start other :=
  rfl

theorem operator_special {op : String} (hunary : unary? op = none) (hbinary : binary? op = none)
    (hcomparison : comparison? op = none) (hnary : nary? op = none) (harith : arith? op = none)
    (hfold : fold? op = none) : operator settings op r options = special settings op r options := by
  simp [operator, hunary, hbinary, hcomparison, hnary, harith, hfold]

theorem rowsOf_of_pair {type : DataType} {x : Expr} {n : Int}
    (hpair : r.pair "rows" = .ok (var path type, x))
    (hn : x.constant?.bind Json.int64? = some n) : r.rowsOf = .ok (rows path n) := by
  unfold rowsOf
  rw [hpair]
  simp only [Bind.bind, Except.bind]
  rw [hn]

end

end Reading

mutual

/-- The expression with every range as the comparisons it stands for. -/
def expanded : Expr → Expr
  | unary op x => unary op x.expanded
  | binary op a b => binary op a.expanded b.expanded
  | nary op terms => nary op (expandedAll terms)
  | when a b c => when a.expanded b.expanded c.expanded
  | case clauses other => case (expandedClauses clauses) other.expanded
  | member x set => member x.expanded set
  | matching x pattern => matching x.expanded pattern
  | range x bounds => and (expandedBounds x.expanded bounds)
  | arith op a b other => arith op a.expanded b.expanded other.expanded
  | fold op terms nulls other => fold op (expandedAll terms) nulls other.expanded
  | concat terms separator other => concat (expandedAll terms) separator other.expanded
  | find a b c other => find a.expanded b.expanded c.expanded other.expanded
  | between a b c d other => between a.expanded b.expanded c.expanded d.expanded other.expanded
  | select fields => select (expandedFields fields)
  | indexOf a b c => indexOf a.expanded b.expanded c.expanded
  | substring a b c => substring a.expanded b.expanded c.expanded
  | leaf => leaf

/-- Several expressions. -/
def expandedAll : List Expr → List Expr
  | [] => []
  | x :: xs => x.expanded :: expandedAll xs

/-- The conditions and values of clauses. -/
def expandedClauses : List (Expr × Expr) → List (Expr × Expr)
  | [] => []
  | (c, v) :: rest => (c.expanded, v.expanded) :: expandedClauses rest

/-- The comparisons of a value with its bounds, in order. -/
def expandedBounds (x : Expr) : List (Inequality × Expr) → List Expr
  | [] => []
  | (op, b) :: rest => binary (.compare op) x b.expanded :: expandedBounds x rest

/-- The values of fields. -/
def expandedFields : List (String × Expr) → List (String × Expr)
  | [] => []
  | (name, v) :: rest => (name, v.expanded) :: expandedFields rest

end

/-- The node is a range. -/
def isRange : Expr → Bool
  | range _ _ => true
  | _ => false

theorem expandedAll_eq_map (terms : List Expr) : expandedAll terms = terms.map expanded := by
  induction terms with
  | nil => rfl
  | cons t rest ih => rw [expandedAll, ih, map_cons]

theorem expandedClauses_eq_map (clauses : List (Expr × Expr)) :
    expandedClauses clauses = clauses.map fun c => (c.1.expanded, c.2.expanded) := by
  induction clauses with
  | nil => rfl
  | cons c rest ih => rw [expandedClauses, ih, map_cons]

theorem expandedFields_eq_map (fields : List (String × Expr)) :
    expandedFields fields = fields.map fun f => (f.1, f.2.expanded) := by
  induction fields with
  | nil => rfl
  | cons f rest ih => rw [expandedFields, ih, map_cons]

theorem expanded_eq_self (h : ∀ n ∈ e.nodes, n.isRange = false) : e.expanded = e := by
  induction e using induction_children with
  | step e ih =>
    rw [nodes_eq, forall_mem_cons] at h
    have hmap : e.expanded = e.mapChildren expanded := by
      cases e with
      | range x bounds => cases h.1
      | _ => simp [expanded, mapChildren, expandedAll_eq_map, expandedClauses_eq_map,
          expandedFields_eq_map]
    rw [hmap]
    exact mapChildren_eq_self fun c hc => ih c hc fun n hn => h.2 n (mem_flatMap.2 ⟨c, hc, hn⟩)

/-- The written form is read as the expression with its ranges expanded. -/
def Rereads (settings : ReadOptions) (e : Expr) : Prop :=
  ∃ x, (Reading.ofJson settings e.toJson).expr = .ok x ∧ beq x e.expanded

theorem otherOption_cases (e : Expr) (v : Json) :
    (e = null ∧ otherOption e v = []) ∨ otherOption e v = [("default", v)] := by
  unfold otherOption
  split
  · exact .inl ⟨rfl, rfl⟩
  · exact .inr rfl

theorem isOperatorKey_otherOption (e : Expr) (v : Json) :
    ∀ o ∈ otherOption e v, isOperatorKey o.1 = false := by
  rcases otherOption_cases e v with ⟨-, h⟩ | h
  · rw [h]
    exact forall_mem_nil _
  · rw [h, forall_mem_singleton]
    rfl

theorem isOperatorKey_nulls (nulls : Bool) :
    ∀ o ∈ (if nulls then [("nulls", .bool true)] else [] : Fields), isOperatorKey o.1 = false := by
  cases nulls
  · exact forall_mem_nil _
  · exact forall_mem_singleton.2 rfl

theorem isOperatorKey_separator (text : String) :
    ∀ o ∈ (if text.isEmpty then [] else [("separator", .str text)] : Fields),
      isOperatorKey o.1 = false := by
  cases text.isEmpty
  · exact forall_mem_singleton.2 rfl
  · exact forall_mem_nil _

/-- The operators that make no choice between two values. -/
def plainNames : List String := operatorNames.erase "when"

theorem isOperatorKey_of_plain : ∀ op ∈ plainNames, isOperatorKey op := by
  decide

theorem plainNames_unary (op : Unary) :
    Reading.unary? op.name = some op → op.name ∈ plainNames := by
  cases op with
  | convert t | isType t => cases t <;> decide
  | _ => decide

theorem plainNames_binary (op : Binary) : op.name ∈ plainNames := by
  cases op with
  | compare op | side op | basicCompare op => cases op <;> decide
  | _ => decide

theorem plainNames_nary (op : Nary) : op.name ∈ plainNames := by
  cases op <;> decide

theorem plainNames_arith (op : Arith) : op.name ∈ plainNames := by
  cases op <;> decide

theorem plainNames_fold (op : Fold) : op.name ∈ plainNames := by
  cases op <;> decide

/-- An expression that makes no choice between two values is written as a value
    without parts, or as another operator with its options. -/
theorem toJson_cases (h : e.IsReadNode D) (hwhen : e.isWhen = false) :
    (e.toJson.arr? = none ∧ e.toJson.obj? = none) ∨
      ∃ op x options, e.toJson = written op x options ∧ op ∈ plainNames ∧
        ∀ o ∈ options, isOperatorKey o.1 = false := by
  have hnone : ∀ o ∈ ([] : Fields), isOperatorKey o.1 = false := forall_mem_nil _
  cases e with
  | const v =>
    cases v with
    | str | arr | obj => exact .inr ⟨"literal", _, [], rfl, by decide, hnone⟩
    | _ => exact .inl ⟨rfl, rfl⟩
  | var => exact .inl ⟨rfl, rfl⟩
  | when => cases hwhen
  | unary op x => exact .inr ⟨op.name, _, [], rfl, plainNames_unary op h, hnone⟩
  | binary op a b => exact .inr ⟨op.name, _, [], rfl, plainNames_binary op, hnone⟩
  | nary op terms => exact .inr ⟨op.name, _, [], rfl, plainNames_nary op, hnone⟩
  | arith op a b other =>
    exact .inr ⟨op.name, _, _, rfl, plainNames_arith op, isOperatorKey_otherOption other _⟩
  | fold op terms nulls other =>
    refine .inr ⟨op.name, _, _, rfl, plainNames_fold op,
      forall_mem_append.2 ⟨?_, isOperatorKey_otherOption other _⟩⟩
    exact isOperatorKey_nulls nulls
  | concat terms separator other =>
    refine .inr ⟨"concat", _, _, rfl, by decide,
      forall_mem_append.2 ⟨?_, isOperatorKey_otherOption other _⟩⟩
    exact isOperatorKey_separator separator
  | find a b c other | between a b c d other =>
    exact .inr ⟨_, _, _, rfl, by decide,
      forall_mem_cons.2 ⟨rfl, isOperatorKey_otherOption other _⟩⟩
  | _ => exact .inr ⟨_, _, [], rfl, by decide, hnone⟩

namespace Reading

variable {settings : ReadOptions} {name : String}

theorem operand_of_operands {r : Reading} (h : r.operands name = r.expr.map fun e => [e]) :
    r.operand name = r.expr := by
  rw [operand, h]
  cases r.expr <;> rfl

theorem operand_written {op : String} (hop : op ∈ operatorNames)
    (hkey : isOperatorKey op) (ho : ∀ o ∈ options, isOperatorKey o.1 = false) (x : Json) :
    (ofJson settings (written op x options)).operand name =
      (ofJson settings (written op x options)).expr := by
  have hobject : isOperatorObject (Ordered.ofList ((op, x) :: options)) := by
    unfold isOperatorObject
    split
    next heq =>
      cases heq.symm.trans (filter_written hkey ho x)
      exact contains_iff_mem.2 hop
    next hne => exact absurd (filter_written hkey ho x) (hne op x)
  refine operand_of_operands ?_
  unfold operands
  rw [value_ofJson, written]
  exact if_pos hobject

/-- What is written alone as an operand is read as one. -/
theorem operand_toJson (h : e.IsReadNode D) :
    (ofJson settings e.toJson).operand name = (ofJson settings e.toJson).expr := by
  by_cases hwhen : e.isWhen
  · cases e with
    | when a b c =>
      refine operand_written (by decide) rfl ?_ _
      exact forall_mem_cons.2 ⟨rfl, forall_mem_singleton.2 rfl⟩
    | _ => cases hwhen
  · rcases toJson_cases h (Bool.not_eq_true _ ▸ hwhen) with
      ⟨harr, hobj⟩ | ⟨op, x, options, heq, hop, ho⟩
    · refine operand_of_operands ?_
      unfold operands
      rw [value_ofJson]
      split
      next hv =>
        rw [hv] at harr
        cases harr
      next hv =>
        rw [hv] at hobj
        cases hobj
      · rfl
    · rw [heq]
      exact operand_written (mem_of_mem_erase hop) (isOperatorKey_of_plain op hop) ho x

theorem get?_when_toJson (h : e.IsReadNode D)
    (hwhen : e.isWhen = false) : Ordered.get? "when" (ofJson settings e.toJson).fields = none := by
  rcases toJson_cases h hwhen with ⟨-, hobj⟩ | ⟨op, x, options, heq, hop, ho⟩
  · cases hv : e.toJson with
    | obj fields =>
      rw [hv] at hobj
      cases hobj
    | _ => rfl
  · rw [heq, fields_written, Option.eq_none_iff_forall_ne_some]
    intro r hr
    have hmem := Ordered.mem_of_get? hr
    obtain ⟨f, hf, hfr⟩ := mem_map.1 hmem
    have hkey : f.1 = "when" := congrArg Prod.fst hfr
    have hone : f ∈ [(op, x)] := by
      rw [← filter_written (isOperatorKey_of_plain op hop) ho x]
      exact mem_filter.2 ⟨hf, by rw [hkey]; rfl⟩
    rw [mem_singleton.1 hone] at hkey
    have hnot : "when" ∉ plainNames := by decide
    exact hnot (hkey ▸ hop)

end Reading

namespace Rereads

open Reading (fieldsOf)

variable {settings : ReadOptions} {a b c d other : Expr}

theorem of_operator {x : Expr} {op : String} {operands : Json}
    (hwritten : e.toJson = written op operands options) (hop : isOperatorKey op)
    (ho : ∀ o ∈ options, isOperatorKey o.1 = false)
    (hread : Reading.operator settings op (Reading.ofJson settings operands)
      (fieldsOf settings op operands options) = .ok x)
    (hequal : beq x e.expanded) : Rereads settings e :=
  ⟨x, by rw [hwritten, Reading.expr_written hop ho, hread], hequal⟩

theorem of_plain {x : Expr} {op : String} {operands : Json}
    (hwritten : e.toJson = written op operands []) (hop : isOperatorKey op)
    (hread : Reading.operator settings op (Reading.ofJson settings operands)
      (fieldsOf settings op operands []) = .ok x)
    (hequal : beq x e.expanded) : Rereads settings e :=
  of_operator hwritten hop (forall_mem_nil _) hread hequal

theorem beq_leaf (e : Expr) (h : e.children = []) (hown : e.OwnDefinite) : beq e e :=
  (definite_iff e).2 ⟨hown, by
    rw [h]
    exact forall_mem_nil _⟩

theorem const {v : Json} (h : v.Definite) : Rereads settings (const v) := by
  have hequal : beq (.const v) (Expr.const v).expanded := definite_const h
  cases v with
  | str | arr | obj => exact of_plain rfl rfl rfl hequal
  | _ => exact ⟨_, rfl, hequal⟩

theorem var (path : Path) : Rereads settings (var path .object) :=
  ⟨.var path .object, rfl, beq_leaf (.var path .object) rfl trivial⟩

theorem offset (i : Nat) : Rereads settings (offset i) := by
  refine of_plain rfl rfl (x := .offset i) ?_ (beq_leaf (.offset i) rfl trivial)
  have hnat : (Json.nat i).nat? = some i := by
    change (if (0 : Int) ≤ i then some (i : Int).toNat else none) = some i
    rw [if_pos (Int.natCast_nonneg i), Int.toNat_natCast]
  rw [Reading.operator_special rfl rfl rfl rfl rfl rfl]
  unfold Reading.special
  rw [Reading.value_ofJson, hnat]
  rfl

theorem date {x : Float} (h : x.isFinite) : Rereads settings (date x) := by
  obtain ⟨y, hy, hyx⟩ := Moment.exists_ofJson_ofFloat settings.now h
  refine of_plain rfl rfl (x := .date y) ?_ ?_
  · rw [Reading.operator_special rfl rfl rfl rfl rfl rfl]
    unfold Reading.special
    rw [Reading.value_ofJson, hy]
    rfl
  · change beq (.date y) (.date x)
    rwa [beq]

theorem script (hscript : settings.allowScript) (sql : String) : Rereads settings (script sql) := by
  refine of_plain rfl rfl (x := .script sql) ?_ (beq_leaf (.script sql) rfl trivial)
  rw [Reading.operator_special rfl rfl rfl rfl rfl rfl]
  unfold Reading.special
  rw [Reading.value_ofJson, if_pos hscript]
  rfl

theorem leaves (path : Path) : Rereads settings (leaves path) :=
  of_plain rfl rfl (x := .leaves path) rfl (beq_leaf (.leaves path) rfl trivial)

theorem rows {shift : Int} (h : (Json.int shift).int64? = some shift) :
    Rereads settings (rows path shift) := by
  refine of_plain rfl rfl (x := .rows path shift) ?_ (beq_leaf (.rows path shift) rfl trivial)
  rw [Reading.operator_special rfl rfl rfl rfl rfl rfl]
  exact Reading.rowsOf_of_pair (Reading.pair_arr (y := .const (.int shift)) rfl rfl) h

section

theorem unary {op : Unary} (hop : Reading.unary? op.name = some op)
    (hown : a.IsReadNode D) (ha : Rereads settings a) : Rereads settings (unary op a) := by
  obtain ⟨x, hx, hxa⟩ := ha
  refine of_plain rfl (isOperatorKey_of_plain _ (plainNames_unary op hop)) (x := .unary op x) ?_ ?_
  · rw [Reading.operator_unary hop, Reading.operand_toJson hown, hx]
    rfl
  · change beq (.unary op x) (.unary op a.expanded)
    simp [beq, hxa]

theorem binary (op : Binary) (ha : Rereads settings a) (hb : Rereads settings b) :
    Rereads settings (binary op a b) := by
  obtain ⟨x, hx, hxa⟩ := ha
  obtain ⟨y, hy, hyb⟩ := hb
  refine of_plain rfl (isOperatorKey_of_plain _ (plainNames_binary op)) (x := .binary op x y) ?_ ?_
  · rw [Reading.operator_binary op (Reading.pairs?_arr _), Reading.pair_arr hx hy]
    rfl
  · change beq (.binary op x y) (.binary op a.expanded b.expanded)
    simp [beq, hxa, hyb]

theorem member {set : List Json} (ha : Rereads settings a) (hset : ∀ v ∈ set, v.Definite) :
    Rereads settings (member a set) := by
  obtain ⟨x, hx, hxa⟩ := ha
  refine of_plain rfl rfl (x := .member x set) ?_ ?_
  · change Reading.membership "in" _ = _
    rw [Reading.membership, Reading.pair_arr (y := .const (.arr set)) hx rfl]
    rfl
  · change beq (.member x set) (.member a.expanded set)
    simp [beq, hxa, (beq_values_self_iff set).2 hset]

theorem matching {pattern : String} (ha : Rereads settings a) :
    Rereads settings (matching a pattern) := by
  obtain ⟨x, hx, hxa⟩ := ha
  refine of_plain rfl rfl (x := .matching x pattern) ?_ ?_
  · rw [Reading.operator_special rfl rfl rfl rfl rfl rfl]
    unfold Reading.special
    rw [Reading.pair_arr (y := .const (.str pattern)) hx rfl]
    rfl
  · change beq (.matching x pattern) (.matching a.expanded pattern)
    simp [beq, hxa]

variable (ha : Rereads settings a) (hb : Rereads settings b) (hc : Rereads settings c)

include ha hb hc

theorem when : Rereads settings (when a b c) := by
  obtain ⟨x, hx, hxa⟩ := ha
  obtain ⟨y, hy, hyb⟩ := hb
  obtain ⟨z, hz, hzc⟩ := hc
  refine of_operator rfl rfl (forall_mem_cons.2 ⟨rfl, forall_mem_singleton.2 rfl⟩)
    (x := .when x y z) ?_ ?_
  · have hthen : Reading.option "then" null (fieldsOf settings "when" a.toJson
        [("then", b.toJson), ("else", c.toJson)]) = .ok y :=
      (Reading.option_written (by decide) null _ _).trans hy
    have helse : Reading.option "else" null (fieldsOf settings "when" a.toJson
        [("then", b.toJson), ("else", c.toJson)]) = .ok z :=
      (Reading.option_written (by decide) null _ _).trans hz
    rw [Reading.operator_special rfl rfl rfl rfl rfl rfl]
    unfold Reading.special
    rw [hx, hthen, helse]
    rfl
  · change beq (.when x y z) (.when a.expanded b.expanded c.expanded)
    simp [beq, hxa, hyb, hzc]

theorem indexOf : Rereads settings (indexOf a b c) := by
  obtain ⟨x, hx, hxa⟩ := ha
  obtain ⟨y, hy, hyb⟩ := hb
  obtain ⟨z, hz, hzc⟩ := hc
  refine of_plain rfl rfl (x := .indexOf x y z) ?_ ?_
  · change (Reading.triple "basic.index_of" _).map _ = _
    rw [Reading.triple_arr hx hy hz]
    rfl
  · change beq (.indexOf x y z) (.indexOf a.expanded b.expanded c.expanded)
    simp [beq, hxa, hyb, hzc]

theorem substring : Rereads settings (substring a b c) := by
  obtain ⟨x, hx, hxa⟩ := ha
  obtain ⟨y, hy, hyb⟩ := hb
  obtain ⟨z, hz, hzc⟩ := hc
  refine of_plain rfl rfl (x := .substring x y z) ?_ ?_
  · change (Reading.triple "basic.substring" _).map _ = _
    rw [Reading.triple_arr hx hy hz]
    rfl
  · change beq (.substring x y z) (.substring a.expanded b.expanded c.expanded)
    simp [beq, hxa, hyb, hzc]

end

theorem operands {terms : List Expr} (h : ∀ t ∈ terms, Rereads settings t) (op : String) :
    ∃ xs, (Reading.ofJson settings (.arr (listToJson terms))).operands op = .ok xs ∧
      beqList xs (expandedAll terms) := by
  rw [Reading.operands_arr]
  induction terms with
  | nil =>
    refine ⟨[], rfl, ?_⟩
    change beqList [] []
    rw [beqList]
  | cons t rest ih =>
    rw [forall_mem_cons] at h
    obtain ⟨x, hx, hxt⟩ := h.1
    obtain ⟨xs, hxs, hequal⟩ := ih h.2
    refine ⟨x :: xs, ?_, ?_⟩
    · rw [listToJson, map_cons, mapM_cons, hx, hxs]
      rfl
    · change beqList (x :: xs) (t.expanded :: expandedAll rest)
      rw [beqList, hxt, hequal]
      rfl

theorem nary (op : Nary) {terms : List Expr} (h : ∀ t ∈ terms, Rereads settings t) :
    Rereads settings (nary op terms) := by
  obtain ⟨xs, hxs, hequal⟩ := operands h op.name
  refine of_plain rfl (isOperatorKey_of_plain _ (plainNames_nary op)) (x := .nary op xs) ?_ ?_
  · rw [Reading.operator_nary, hxs]
    rfl
  · change beq (.nary op xs) (.nary op (expandedAll terms))
    simp [beq, hequal]

section

variable {D : Json → Prop} (h : ∀ c ∈ cs, Rereads settings c.1 ∧ Rereads settings c.2)
  (hown : other.IsReadNode D) (hwhen : other.isWhen = false) (hother : Rereads settings other)
include h hown hwhen hother

/-- The clauses of a choice are read up to the last value, which is no clause itself. -/
theorem clauses :
    ∃ ys y, Reading.clauses ((clausesToJson cs ++ [other.toJson]).map (Reading.ofJson settings)) =
      .ok (ys, y) ∧ beqClauses ys (expandedClauses cs) ∧ beq y other.expanded := by
  induction cs with
  | nil =>
    obtain ⟨y, hy, hequal⟩ := hother
    refine ⟨[], y, ?_, ?_, hequal⟩
    · rw [clausesToJson, nil_append, map_singleton, Reading.clauses,
        Reading.get?_when_toJson hown hwhen]
      simp only [isEmpty_nil, if_true, hy]
      rfl
    · change beqClauses [] []
      rw [beqClauses]
  | cons c rest ih =>
    rw [forall_mem_cons] at h
    obtain ⟨⟨x, hx, hxc⟩, ⟨v, hv, hvc⟩⟩ := h.1
    obtain ⟨ys, y, hys, hequal, hy⟩ := ih h.2
    refine ⟨(x, v) :: ys, y, ?_, ?_, hy⟩
    · have hcond : Ordered.get? "when" (Reading.ofJson settings
          (.mkObj [("when", c.1.toJson), ("then", c.2.toJson)])).fields =
            some (Reading.ofJson settings c.1.toJson) := rfl
      have hvalue : Reading.option "then" null (Reading.ofJson settings
          (.mkObj [("when", c.1.toJson), ("then", c.2.toJson)])).fields = .ok v := hv
      rw [clausesToJson, cons_append, map_cons, Reading.clauses, hcond]
      dsimp only
      rw [hx, hvalue, hys]
      rfl
    · change beqClauses ((x, v) :: ys) ((c.1.expanded, c.2.expanded) :: expandedClauses rest)
      rw [beqClauses, hxc, hvc, hequal]
      rfl

theorem case : Rereads settings (case cs other) := by
  obtain ⟨ys, y, hread, hequal, hy⟩ := clauses h hown hwhen hother
  refine of_plain rfl rfl (x := .case ys y) ?_ ?_
  · rw [Reading.operator_special rfl rfl rfl rfl rfl rfl]
    change (Reading.clauses (Reading.ofItems settings _)).map _ = _
    rw [Reading.ofItems_eq_map, hread]
    rfl
  · change beq (.case ys y) (.case (expandedClauses cs) other.expanded)
    simp [beq, hequal, hy]

end

theorem range {bounds : List (Inequality × Expr)} (ha : Rereads settings a)
    (h : ∀ b ∈ bounds, Rereads settings b.2) : Rereads settings (range a bounds) := by
  obtain ⟨x, hx, hxa⟩ := ha
  have hbounds : ∃ xs, ((boundsToJson a.toJson bounds).map (Reading.ofJson settings)).mapM
      Reading.expr = .ok xs ∧ beqList xs (expandedBounds a.expanded bounds) := by
    induction bounds with
    | nil =>
      refine ⟨[], rfl, ?_⟩
      change beqList [] []
      rw [beqList]
    | cons b rest ih =>
      rw [forall_mem_cons] at h
      obtain ⟨xs, hxs, hequal⟩ := ih h.2
      rcases binary (.compare b.1) ⟨x, hx, hxa⟩ h.1 with ⟨y, hy, hyb⟩
      refine ⟨y :: xs, ?_, ?_⟩
      · rw [boundsToJson, map_cons, mapM_cons, hxs]
        change ((Reading.ofJson settings (toJson (.binary (.compare b.1) a b.2))).expr).bind _ = _
        rw [hy]
        rfl
      · change beqList (y :: xs) ((Expr.binary (.compare b.1) a b.2).expanded ::
          expandedBounds a.expanded rest)
        rw [beqList, hyb, hequal]
        rfl
  obtain ⟨xs, hxs, hequal⟩ := hbounds
  refine of_plain rfl rfl (x := .and xs) ?_ ?_
  · rw [← Reading.operands_arr "and"] at hxs
    change (Reading.operands "and" _).map _ = _
    rw [hxs]
    rfl
  · change beq (.and xs) (.and (expandedBounds a.expanded bounds))
    simp [beq, hequal]

theorem select {fields : List (String × Expr)} (h : ∀ f ∈ fields, Rereads settings f.2) :
    Rereads settings (select fields) := by
  have hfields : ∃ xs, ((fieldsToJson fields).map (Reading.ofJson settings)).mapM
      Reading.selected = .ok xs ∧ beqFields xs (expandedFields fields) := by
    induction fields with
    | nil =>
      refine ⟨[], rfl, ?_⟩
      change beqFields [] []
      rw [beqFields]
    | cons f rest ih =>
      rw [forall_mem_cons] at h
      obtain ⟨x, hx, hxf⟩ := h.1
      obtain ⟨xs, hxs, hequal⟩ := ih h.2
      refine ⟨(f.1, x) :: xs, ?_, ?_⟩
      · have hselected : (Reading.ofJson settings
            (.mkObj [("name", .str f.1), ("value", f.2.toJson)])).selected = .ok (f.1, x) := by
          change ((Reading.ofJson settings f.2.toJson).expr).map _ = _
          rw [hx]
          rfl
        rw [fieldsToJson, map_cons, mapM_cons, hselected, hxs]
        rfl
      · change beqFields ((f.1, x) :: xs) ((f.1, f.2.expanded) :: expandedFields rest)
        rw [beqFields, beq_self_eq_true, hxf, hequal]
        rfl
  obtain ⟨xs, hxs, hequal⟩ := hfields
  refine of_plain rfl rfl (x := .select xs) ?_ ?_
  · rw [Reading.operator_special rfl rfl rfl rfl rfl rfl]
    change ((Reading.ofItems settings _).mapM Reading.selected).map _ = _
    rw [Reading.ofItems_eq_map, hxs]
    rfl
  · change beq (.select xs) (.select (expandedFields fields))
    simp [beq, hequal]

/-- Behind the other options, the value to take instead is read as what it was
    written for, and null where it was left out. -/
theorem default {op : String} (operands : Json) (front : Fields) (hop : "default" ≠ op)
    (hfront : Ordered.get? "default" (Ordered.ofList front) = none)
    (hother : Rereads settings other) :
    ∃ y, Reading.option "default" null (fieldsOf settings op operands
        (front ++ otherOption other other.toJson)) = .ok y ∧ beq y other.expanded := by
  obtain ⟨y, hy, hequal⟩ := hother
  rcases otherOption_cases other other.toJson with ⟨hnull, hnone⟩ | hsome
  · refine ⟨null, ?_, ?_⟩
    · rw [hnone, append_nil, Reading.option_written hop, hfront]
    · rw [hnull]
      exact definite_const Json.definite_null
  · refine ⟨y, ?_, hequal⟩
    rw [hsome, Reading.option_written hop, Ordered.ofList, foldl_append, foldl_cons,
      foldl_nil, Ordered.get?_insert_self]
    exact hy

theorem get?_front (h : key ≠ "default") (front : Fields) (e : Expr) (v : Json) :
    Ordered.get? key (Ordered.ofList (front ++ otherOption e v)) =
      Ordered.get? key (Ordered.ofList front) := by
  rcases otherOption_cases e v with ⟨-, hnone⟩ | hsome
  · rw [hnone, append_nil]
  · rw [hsome, Ordered.ofList, foldl_append, foldl_cons, foldl_nil, Ordered.get?_insert_of_ne h]
    rfl

theorem start {op : String} (operands : Json) (hop : "start" ≠ op) (ha : Rereads settings a)
    (e : Expr) (v : Json) : ∃ x, Reading.option "start" (int 0) (fieldsOf settings op operands
        (("start", a.toJson) :: otherOption e v)) = .ok x ∧ beq x a.expanded := by
  obtain ⟨x, hx, hequal⟩ := ha
  refine ⟨x, ?_, hequal⟩
  rw [← singleton_append, Reading.option_written hop, get?_front (by decide)]
  exact hx

theorem nulls_ne_of_plain : ∀ op ∈ plainNames, "nulls" ≠ op := by
  decide

theorem start_ne_of_plain : ∀ op ∈ plainNames, "start" ≠ op := by
  decide

theorem default_ne_of_plain : ∀ op ∈ plainNames, "default" ≠ op := by
  decide

theorem arith (op : Arith) (ha : Rereads settings a) (hb : Rereads settings b)
    (hother : Rereads settings other) : Rereads settings (arith op a b other) := by
  obtain ⟨x, hx, hxa⟩ := ha
  obtain ⟨y, hy, hyb⟩ := hb
  rcases default (.arr [a.toJson, b.toJson]) [] (default_ne_of_plain _ (plainNames_arith op)) rfl
    hother with ⟨z, hz, hzo⟩
  refine of_operator rfl (isOperatorKey_of_plain _ (plainNames_arith op))
    (isOperatorKey_otherOption other _) (x := .arith op x y z) ?_ ?_
  · rw [Reading.operator_arith, Reading.pair_arr hx hy]
    exact congrArg (Except.map fun z => Expr.arith op x y z) hz
  · change beq (.arith op x y z) (.arith op a.expanded b.expanded other.expanded)
    simp [beq, hxa, hyb, hzo]

theorem fold (op : Fold) {terms : List Expr} (nulls : Bool) (h : ∀ t ∈ terms, Rereads settings t)
    (hother : Rereads settings other) : Rereads settings (fold op terms nulls other) := by
  obtain ⟨xs, hxs, hequal⟩ := operands h op.name
  have hplain := plainNames_fold op
  rcases default (.arr (listToJson terms))
    (if nulls then [("nulls", .bool true)] else []) (default_ne_of_plain _ hplain)
    (by cases nulls <;> rfl) hother with ⟨z, hz, hzo⟩
  refine of_operator rfl (isOperatorKey_of_plain _ hplain) (forall_mem_append.2
    ⟨isOperatorKey_nulls nulls, isOperatorKey_otherOption other _⟩) (x := .fold op xs nulls z) ?_ ?_
  · have hnulls : ((Ordered.get? "nulls" (fieldsOf settings op.name (.arr (listToJson terms))
        ((if nulls then [("nulls", .bool true)] else []) ++
          otherOption other other.toJson))).bind (·.value.bool?)).getD false = nulls := by
      rw [Reading.get?_fieldsOf (nulls_ne_of_plain _ hplain), get?_front (by decide)]
      cases nulls <;> rfl
    rw [Reading.operator_fold, hxs, hnulls]
    exact congrArg (Except.map fun z => Expr.fold op xs nulls z) hz
  · change beq (.fold op xs nulls z) (.fold op (expandedAll terms) nulls other.expanded)
    simp [beq, hequal, hzo]

theorem concat {terms : List Expr} (separator : String) (h : ∀ t ∈ terms, Rereads settings t)
    (hother : Rereads settings other) : Rereads settings (concat terms separator other) := by
  obtain ⟨xs, hxs, hequal⟩ := operands h "concat"
  have hfront : Ordered.get? "separator" (Ordered.ofList
      (if separator.isEmpty then [] else [("separator", Json.str separator)])) =
        if separator.isEmpty then none else some (.str separator) := by
    cases separator.isEmpty <;> rfl
  rcases default (.arr (listToJson terms))
    (if separator.isEmpty then [] else [("separator", .str separator)])
    (default_ne_of_plain "concat" (by decide)) (by cases separator.isEmpty <;> rfl) hother with
    ⟨z, hz, hzo⟩
  refine of_operator rfl rfl (forall_mem_append.2 ⟨isOperatorKey_separator separator,
    isOperatorKey_otherOption other _⟩) (x := .concat xs separator z) ?_ ?_
  · have hseparator : ((Ordered.get? "separator" (fieldsOf settings "concat"
        (.arr (listToJson terms)) ((if separator.isEmpty then [] else
          [("separator", .str separator)]) ++ otherOption other other.toJson))).bind
            (·.value.str?)).getD "" = separator := by
      rw [Reading.get?_fieldsOf (by decide), get?_front (by decide), hfront]
      by_cases hempty : separator.isEmpty
      · rw [if_pos hempty, String.isEmpty_iff.1 hempty]
        rfl
      · rw [if_neg hempty]
        rfl
    rw [Reading.operator_concat, hxs, hseparator]
    exact congrArg (Except.map fun z => Expr.concat xs separator z) hz
  · change beq (.concat xs separator z) (.concat (expandedAll terms) separator other.expanded)
    simp [beq, hequal, hzo]

section

variable (ha : Rereads settings a) (hb : Rereads settings b) (hc : Rereads settings c)
include ha hb hc

theorem find (hother : Rereads settings other) : Rereads settings (find a b c other) := by
  obtain ⟨x, hx, hxa⟩ := ha
  obtain ⟨y, hy, hyb⟩ := hb
  rcases start (.arr [a.toJson, b.toJson]) (start_ne_of_plain "find" (by decide)) hc other
    other.toJson with ⟨s, hs, hsc⟩
  rcases default (.arr [a.toJson, b.toJson]) [("start", c.toJson)]
    (default_ne_of_plain "find" (by decide)) rfl hother with ⟨z, hz, hzo⟩
  refine of_operator rfl rfl (forall_mem_cons.2 ⟨rfl, isOperatorKey_otherOption other _⟩)
    (x := .find x y s z) ?_ ?_
  · rw [Reading.operator_find, Reading.pair_arr hx hy]
    rw [hs]
    exact congrArg (Except.map fun z => Expr.find x y s z) hz
  · change beq (.find x y s z) (.find a.expanded b.expanded c.expanded other.expanded)
    simp [beq, hxa, hyb, hsc, hzo]

theorem between (hd : Rereads settings d) (hother : Rereads settings other) :
    Rereads settings (between a b c d other) := by
  obtain ⟨x, hx, hxa⟩ := ha
  obtain ⟨y, hy, hyb⟩ := hb
  obtain ⟨w, hw, hwc⟩ := hc
  rcases start (.arr [a.toJson, b.toJson, c.toJson]) (start_ne_of_plain "between" (by decide)) hd
    other other.toJson with ⟨s, hs, hsd⟩
  rcases default (.arr [a.toJson, b.toJson, c.toJson]) [("start", d.toJson)]
    (default_ne_of_plain "between" (by decide)) rfl hother with ⟨z, hz, hzo⟩
  refine of_operator rfl rfl (forall_mem_cons.2 ⟨rfl, isOperatorKey_otherOption other _⟩)
    (x := .between x y w s z) ?_ ?_
  · rw [Reading.operator_between, Reading.delimited_arr hx hy hw]
    rw [hs]
    exact congrArg (Except.map fun z => Expr.between x y w s z) hz
  · change beq (.between x y w s z)
      (.between a.expanded b.expanded c.expanded d.expanded other.expanded)
    simp [beq, hxa, hyb, hwc, hsd, hzo]

end

end Rereads

theorem keeps_isReadNode (settings : ReadOptions) :
    Reading.Keeps settings Json.Definite fun e => ∀ n ∈ e.nodes, n.IsReadNode Json.Definite :=
  Reading.keeps_readNodes Json.definite_null Json.definite_int Json.definite_ofFloat
    (fun h => (Json.definite_arr_iff _).1 h) fun h => (Json.definite_obj_iff _).1 h

/-- An expression of nodes that can be read, with moments that can be written,
    is read from what it is written as. -/
theorem rereads_of_nodes {settings : ReadOptions} (hscript : settings.allowScript)
    (hread : ∀ n ∈ e.nodes, n.IsReadNode Json.Definite)
    (hdates : ∀ x, date x ∈ e.nodes → x.isFinite) : Rereads settings e := by
  induction e using induction_children with
  | step e ih =>
    rw [nodes_eq] at hread hdates
    have hown := hread e mem_cons_self
    have hbelow : ∀ c ∈ e.children, ∀ n ∈ c.nodes, n ∈ e :: e.children.flatMap nodes :=
      fun c hc n hn => mem_cons_of_mem _ (mem_flatMap.2 ⟨c, hc, hn⟩)
    have hkids : ∀ c ∈ e.children, Rereads settings c := fun c hc =>
      ih c hc (fun n hn => hread n (hbelow c hc n hn)) fun x hx => hdates x (hbelow c hc _ hx)
    -- a choice has to know what its last value is, besides how it is read
    have hnodes : ∀ c ∈ e.children, c.IsReadNode Json.Definite := fun c hc =>
      hread c (hbelow c hc c (by rw [nodes_eq]; exact mem_cons_self))
    rw [forall_mem_children] at hkids hnodes
    cases e with
    | const v => exact .const hown
    | date x => exact .date (hdates x mem_cons_self)
    | var path type =>
      have htype : type = .object := hown
      rw [htype]
      exact .var path
    | offset i => exact .offset i
    | script sql => exact .script hscript sql
    | leaves path => exact .leaves path
    | rows path shift => exact .rows hown
    | nary op terms => exact .nary op hkids
    | range x bounds => exact .range hkids.1 hkids.2
    | case clauses other => exact .case hkids.1 hnodes.2 hown hkids.2
    | select fields => exact .select hkids
    | fold op terms nulls other => exact .fold op nulls hkids.1 hkids.2
    | concat terms separator other => exact .concat separator hkids.1 hkids.2
    | unary op x => exact .unary hown hnodes hkids
    | member x set => exact .member hkids hown
    | matching x pattern => exact .matching hkids
    | binary op a b => exact .binary op hkids.1 hkids.2
    | when a b c => exact .when hkids.1 hkids.2.1 hkids.2.2
    | arith op a b other => exact .arith op hkids.1 hkids.2.1 hkids.2.2
    | find a b c other => exact .find hkids.1 hkids.2.1 hkids.2.2.1 hkids.2.2.2
    | between a b c d other =>
      exact .between hkids.1 hkids.2.1 hkids.2.2.1 hkids.2.2.2.1 hkids.2.2.2.2
    | indexOf a b c => exact .indexOf hkids.1 hkids.2.1 hkids.2.2
    | substring a b c => exact .substring hkids.1 hkids.2.1 hkids.2.2

/-- Whatever is read without moments out of all bounds is written as something that is read as the
    same expression, but for ranges, which come back as the comparisons they stand for. -/
theorem ofJson_toJson {settings again : ReadOptions} {v : Json} {e : Expr}
    (hscript : again.allowScript = true) (hv : v.Definite) (hread : ofJson settings v = .ok e)
    (hdates : ∀ x, date x ∈ e.nodes → x.isFinite = true) :
    ∃ x, ofJson again e.toJson = .ok x ∧ (x == e.expanded) = true ∧
      ((∀ n ∈ e.nodes, n.isRange = false) → (x == e) = true) := by
  rcases rereads_of_nodes hscript ((keeps_isReadNode _).ofJson hv hread) hdates with ⟨x, hx, hequal⟩
  refine ⟨x, hx, hequal, fun hranges => ?_⟩
  rw [expanded_eq_self hranges] at hequal
  exact hequal

/-- A range with a moment for a bound, a choice of clauses, a text with a
    separator and a field compared with several constants. -/
def assorted : Json := .obj [("and", .arr [
    .obj [("range", .obj [("a", .obj [("gte", .int 1), ("lt", .obj [("date", .int 86400)])])])],
    .obj [("case", .arr [
      .obj [("then", .int 1), ("when", .obj [("eq", .arr [.str "b", .str "c"])])],
      .obj [("concat", .arr [.str "x"]), ("separator", .str "-")]])],
    .obj [("eq", .obj [("x", .arr [.int 1, .str "y"])])]])]

def assortedExpr : Expr := and [range (field "a") [(.gte, int 1), (.lt, date (Float.ofInt 86400))],
    case [(binary .eq (field "b") (field "c"), int 1)] (concat [field "x"] "-" null),
    member (field "x") [.int 1, .str "y"]]

theorem ofJson_toJson_assorted :
    assorted.Definite ∧ ofJson ⟨false, 0⟩ assorted = .ok assortedExpr ∧
      (∀ x, date x ∈ assortedExpr.nodes → x.isFinite = true) ∧
      ∃ x, ofJson ⟨true, 1⟩ assortedExpr.toJson = .ok x ∧ (x == assortedExpr.expanded) = true := by
  have hdefinite : assorted.Definite := by
    unfold Json.Definite
    rfl
  have hread : ofJson ⟨false, 0⟩ assorted = .ok assortedExpr := rfl
  have hdates : ∀ x, date x ∈ assortedExpr.nodes → x.isFinite = true := by
    intro x hx
    simp only [assortedExpr, nodes, nodesOf, boundNodes, clauseNodes, field, int,
      List.cons_append, List.nil_append, List.mem_cons, List.not_mem_nil, reduceCtorEq, false_or,
      or_false, date.injEq] at hx
    rw [hx]
    rfl
  have hscript : (ReadOptions.mk true 1).allowScript = true := rfl
  rcases ofJson_toJson hscript hdefinite hread hdates with ⟨x, hx, hequal, -⟩
  exact ⟨hdefinite, hread, hdates, x, hx, hequal⟩

theorem ofJson_toJson_date {again : ReadOptions} {x : Float} (h : x.isFinite = false) :
    ofJson again (toJson (date x)) = .error (.moment (.notMomentValue .null)) := by
  have hnull : Json.ofFloat x = .null := by
    simp [Json.ofFloat, Json.float, h, Bool.false_and, Bool.false_eq_true]
  change (Reading.ofJson again (written "date" (.ofFloat x) [])).expr = _
  rw [hnull]
  rfl

end Expr

end Snowbank
