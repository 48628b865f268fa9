import Snowbank.Proofs.Expr.Scripts
import Snowbank.Proofs.Sql.Closed

/-!
# The SQL of Expressions Is Closed

What an expression holds of a document or a query (names, texts, members of
sets, patterns, separators) enters its SQL as quoted names and texts. Only a
script enters as it is.

The translation goes through the operands of a node, each put into the scope
that it needs. The proof goes the same way: what is known of an operand is
known in every scope, because the translation chooses the scope.

## Main definitions

* `Translates`: The SQL of an expression is closed in every scope.

## Theorems

* `closed_translate`: That of an expression without scripts is.
-/

namespace Snowbank.Scope

open List Expr Sql

open Sql (IsClosed isClosed_append isClosed_name isClosed_text isClosed_float)

section

variable {body : Scope → Except CompileError Sql} (h : ∀ scope, Ensures IsClosed (body scope))

include h

theorem closed_descend (scope : Scope) (e : Expr) : Ensures IsClosed (scope.descend e body) := by
  refine .after fun deep => ?_
  cases deep with
  | none => exact h scope
  | some deep => exact (h _).bind fun inner hinner => .pure (scope.isClosed_collected deep e hinner)

theorem closed_place (scope : Scope) (e : Expr) : Ensures IsClosed (scope.place e body) := by
  have hitem : ∀ suffix : Sql, suffix.IsClosed → ∀ many : Bool,
      Ensures IsClosed
        (if many then return (← body scope) ++ suffix else scope.descend e body) := by
    intro suffix hsuffix many
    split
    · exact (h scope).bind fun v hv => .pure (hv.append hsuffix)
    · exact closed_descend h scope e
  unfold place
  split
  · exact h scope
  · exact h scope
  · exact h scope
  · exact .after fun many => hitem _ (.word (by decide)) many
  · exact .after fun many => hitem _ (.word (by decide)) many
  · exact closed_descend h scope _

end

section

variable (scope : Scope) {x : Expr} {value : Except CompileError Sql} (h : Ensures IsClosed value)

include h

theorem closed_missingOf : Ensures IsClosed (scope.missingOf x value) := by
  unfold missingOf
  split
  · exact .ok (scope.isClosed_missingVar _ _)
  · refine h.map fun v hv => ?_
    simp +decide [hv]

theorem closed_convertOf (type : DataType) : Ensures IsClosed (scope.convertOf type x value) := by
  unfold convertOf
  split
  · split
    · exact h
    · exact (closed_missingOf scope h).map fun _ => isClosed_negation
  · exact h.map fun _ hv => isClosed_asNumber hv _
  · refine h.map fun v hv => ?_
    simp +decide [isClosed_asNumber hv]
  · exact h.map fun _ hv => isClosed_asText hv _
  · exact h

theorem closed_isTypeOf (type : DataType) : Ensures IsClosed (scope.isTypeOf type x value) := by
  unfold isTypeOf
  split
  · exact .ok (scope.isClosed_isTypeVar _ _)
  · dsimp only
    split
    · refine h.map fun v hv => ?_
      simp +decide [hv]
    · exact .ok (.word (by decide))

theorem closed_memberOf (set : List Json) : Ensures IsClosed (scope.memberOf x set value) := by
  have hconstants : ∀ p ∈ (set.filter (Sql.comparable x.dataType)).map Sql.value, p.IsClosed := by
    intro p hp
    obtain ⟨v, -, rfl⟩ := mem_map.1 hp
    exact Sql.isClosed_value v
  have hnull : ∀ found : Sql, found.IsClosed → Ensures IsClosed
      (if set.any Json.isNull then return "(" ++ (← scope.missingOf x value) ++
        " OR " ++ found ++ ")"
        else return found) := by
    intro found hfound
    split
    · refine (closed_missingOf scope h).bind fun m hm => .pure ?_
      simp +decide [hm, hfound]
    · exact .pure hfound
  unfold memberOf
  dsimp only
  split
  · exact hnull _ (.word (by decide))
  · refine Ensures.bind (h.map fun v hv => ?_) hnull
    simp +decide [hv, Sql.isClosed_comma hconstants]

theorem closed_unaryOf (op : Unary) : Ensures IsClosed (scope.unaryOf op x value) := by
  cases op with
  | not => exact h.map fun _ => isClosed_negation
  | missing => exact closed_missingOf scope h
  | present => exact (closed_missingOf scope h).map fun _ => isClosed_negation
  | first | last => exact h
  | length =>
    refine h.map fun v hv => ?_
    simp +decide [isClosed_asText hv]
  | convert type => exact closed_convertOf scope h type
  | isType type => exact closed_isTypeOf scope h type

theorem closed_binaryOf {other : Except CompileError Sql} (hother : Ensures IsClosed other)
    (op : Binary) (a b : DataType) : Ensures IsClosed (binaryOf op a b value other) := by
  have hboth : ∀ {build : Sql → Sql → Sql},
      (∀ v w : Sql, v.IsClosed → w.IsClosed → (build v w).IsClosed) →
      Ensures IsClosed (do return build (← value) (← other)) :=
    fun hbuild => h.bind fun v hv => hother.bind fun w hw => .pure (hbuild v w hv hw)
  cases op with
  | eq | ne | get | basicEq =>
    refine hboth fun v w hv hw => ?_
    simp +decide [hv, hw]
  | compare o => exact hboth fun v w => isClosed_comparison o
  | basicCompare o =>
    refine hboth fun v w hv hw => ?_
    simp +decide [hv, hw]
  | side o =>
    exact hboth fun v w hv hw =>
      isClosed_side o (isClosed_asText hv a) (isClosed_position hw)
  | split =>
    refine hboth fun v w hv hw => ?_
    simp +decide [isClosed_asText hv, isClosed_asText hw]
  | startsWith | endsWith =>
    -- the second operand is translated first
    refine hother.bind fun w hw => h.bind fun v hv => .pure ?_
    exact isClosed_affix (.word (by decide)) (isClosed_asText hv a) (isClosed_asText hw b)

end

section

variable {onBetween : Scope → Expr → Except CompileError Sql}

variable {e : Expr}

/-- The SQL of an expression is closed in every scope. -/
def Translates (onBetween : Scope → Expr → Except CompileError Sql) (e : Expr) : Prop :=
  ∀ scope, Ensures IsClosed (body onBetween e scope)

theorem Translates.place (h : Translates onBetween e) (scope : Scope) :
    Ensures IsClosed (scope.place e (body onBetween e)) :=
  closed_place h scope e

theorem closed_bodies {terms : List Expr} (h : ∀ t ∈ terms, Translates onBetween t)
    (scope : Scope) : Ensures (fun vs => ∀ v ∈ vs, v.IsClosed) (bodies onBetween terms scope) := by
  induction terms with
  | nil => exact .ok (forall_mem_nil _)
  | cons t rest ih =>
    rw [forall_mem_cons] at h
    exact (h.1.place scope).bind fun v hv => (ih h.2).bind fun vs hvs =>
      .pure (forall_mem_cons.2 ⟨hv, hvs⟩)

theorem closed_clauseBodies {clauses : List (Expr × Expr)}
    (h : ∀ c ∈ clauses, Translates onBetween c.1 ∧ Translates onBetween c.2) (scope : Scope) :
    Ensures (fun vs => ∀ v ∈ vs, v.IsClosed) (clauseBodies onBetween clauses scope) := by
  induction clauses with
  | nil => exact .ok (forall_mem_nil _)
  | cons c rest ih =>
    rw [forall_mem_cons] at h
    refine (h.1.1.place scope).bind fun c hc => (h.1.2.place scope).bind fun v hv =>
      (ih h.2).bind fun vs hvs => .pure (forall_mem_cons.2 ⟨?_, hvs⟩)
    simp +decide [hc, hv]

theorem closed_boundBodies {bounds : List (Inequality × Expr)} {value : Sql}
    (hvalue : value.IsClosed) (h : ∀ b ∈ bounds, Translates onBetween b.2) (scope : Scope) :
    Ensures (fun vs => ∀ v ∈ vs, v.IsClosed) (boundBodies onBetween value bounds scope) := by
  induction bounds with
  | nil => exact .ok (forall_mem_nil _)
  | cons b rest ih =>
    rw [forall_mem_cons] at h
    exact (h.1.place scope).bind fun v hv => (ih h.2).bind fun vs hvs =>
      .pure (forall_mem_cons.2 ⟨isClosed_comparison _ hvalue hv, hvs⟩)

theorem closed_fieldBodies {fields : List (String × Expr)}
    (h : ∀ f ∈ fields, Translates onBetween f.2) (scope : Scope) :
    Ensures (fun vs => ∀ v ∈ vs, v.2.IsClosed) (fieldBodies onBetween fields scope) := by
  induction fields with
  | nil => exact .ok (forall_mem_nil _)
  | cons f rest ih =>
    rw [forall_mem_cons] at h
    exact (h.1.place scope).bind fun v hv => (ih h.2).bind fun vs hvs =>
      .pure (forall_mem_cons.2 ⟨hv, hvs⟩)

theorem closed_body
    (hbetween : ∀ scope (e : Expr), e.ScriptFree → Ensures IsClosed (onBetween scope e))
    (h : e.ScriptFree) : Translates onBetween e := by
  -- by induction on the expression: operands are closed in every scope
  induction e using induction_children with
  | step e ih =>
    have hkids : ∀ c ∈ e.children, Translates onBetween c := fun c hc => ih c hc (h.child hc)
    rw [forall_mem_children] at hkids
    -- the scope comes last: operands are put into scopes of their own
    intro scope
    cases e with
    | const value => exact .ok (Sql.isClosed_value value)
    | date seconds => exact .ok (isClosed_float seconds)
    | var path type => exact .ok (scope.isClosed_valueOf path type)
    | offset i => exact .error _
    | script sql => exact absurd h (not_scriptFree_script sql)
    | leaves path => exact .ok (scope.snowflake.isClosed_document _)
    | rows path shift => exact .ok (scope.isClosed_shifted path shift)
    | unary op x => exact closed_unaryOf scope (hkids.place scope) op
    | binary op a b => exact closed_binaryOf (hkids.1.place scope) (hkids.2.place scope) op _ _
    | nary op terms =>
      exact (closed_bodies hkids scope).bind fun vs hvs => .pure (isClosed_naryOf hvs op _)
    | when cond x y =>
      refine (hkids.1.place scope).bind fun c hc => (hkids.2.1.place scope).bind fun v hv =>
        (hkids.2.2.place scope).bind fun w hw => .pure ?_
      simp +decide [hc, hv, hw]
    | case clauses other =>
      refine (closed_clauseBodies hkids.1 scope).bind fun vs hvs =>
        (hkids.2.place scope).bind fun w hw => .pure ?_
      have hwhens : (Sql.join " " vs).IsClosed := isClosed_join (.word (by decide)) hvs
      simp +decide [hwhens, hw]
    | member x set => exact closed_memberOf scope (hkids.place scope) set
    | matching x pattern =>
      refine (hkids.place scope).bind fun v hv => .pure ?_
      simp +decide [isClosed_asText hv]
    | range x bounds =>
      exact (hkids.1.place scope).bind fun v hv =>
        (closed_boundBodies hv hkids.2 scope).bind fun vs hvs =>
          .pure (isClosed_parens (isClosed_conjunction hvs))
    | arith op a b other =>
      refine (hkids.1.place scope).bind fun v hv => (hkids.2.1.place scope).bind fun w hw => ?_
      have hraw := isClosed_arith op (isClosed_asNumber hv a.dataType)
        (isClosed_asNumber hw b.dataType)
      split
      · exact .pure hraw
      · exact (hkids.2.2.place scope).bind fun u hu => .pure (isClosed_orElse hraw hu)
    | fold op terms nulls other =>
      exact (closed_bodies hkids.1 scope).bind fun vs hvs =>
        (hkids.2.place scope).bind fun w hw => .pure
          (isClosed_fold op (isClosed_zipWith hvs isClosed_asNumber _) nulls _ hw)
    | concat terms separator other =>
      exact (closed_bodies hkids.1 scope).bind fun vs hvs =>
        (hkids.2.place scope).bind fun w hw => .pure
          (isClosed_concat (isClosed_zipWith hvs isClosed_asText _) separator hw)
    | find text needle start other =>
      refine (hkids.2.2.1.place scope).bind fun s hs => (hkids.1.place scope).bind fun t ht =>
        (hkids.2.1.place scope).bind fun n hn => (hkids.2.2.2.place scope).bind fun w hw =>
          .pure ?_
      have hindex := isClosed_indexOf (isClosed_asText ht text.dataType)
        (isClosed_asText hn needle.dataType) (isClosed_position hs)
      simp +decide [hindex, hw]
    | between text opening closing start other => exact hbetween scope _ h
    | select fields =>
      rw [body]
      exact (closed_fieldBodies hkids scope).bind fun vs hvs => .pure (isClosed_struct hvs)
    | indexOf text needle start =>
      rw [body]
      exact (hkids.2.2.place scope).bind fun s hs => (hkids.1.place scope).bind fun t ht =>
        (hkids.2.1.place scope).bind fun n hn => .pure
          (isClosed_indexOf (isClosed_asText ht _) (isClosed_asText hn _) (isClosed_position hs))
    | substring text start stop =>
      rw [body]
      refine (hkids.2.1.place scope).bind fun s hs => (hkids.2.2.place scope).bind fun e he =>
        (hkids.1.place scope).bind fun t ht => .pure ?_
      simp +decide [isClosed_asText ht, isClosed_position hs, he]

theorem closed_betweenOf (scope : Scope) (h : e.ScriptFree) :
    Ensures IsClosed (scope.betweenOf e) := by
  unfold betweenOf
  dsimp only
  split
  · exact .error _
  · exact (closed_body (fun _ _ _ => .error _) h.simplify).place scope

theorem closed_translate (scope : Scope) (h : e.ScriptFree) :
    Ensures IsClosed (scope.translate e) :=
  (closed_body (fun scope _ h => closed_betweenOf scope h) h).place scope

end

end Snowbank.Scope
