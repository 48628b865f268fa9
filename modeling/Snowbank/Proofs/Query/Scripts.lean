import Snowbank.Proofs.Expr.Scripts
import Snowbank.Proofs.Query.Holds

/-!
# Queries Without Scripts

A query reads its expressions with scripts not allowed, puts other paths into
them and simplifies them. So no expression of a query that is read from JSON
holds a script, wherever it stands.

## Main definitions

* `ScriptFree`: No expression of the query holds a script.

## Theorems

* `scriptFree_ofJson`: A query that is read holds none.
-/

namespace Snowbank

/-- No expression of the query holds a script. -/
abbrev Query.ScriptFree (q : Query) : Prop := q.Holds Expr.ScriptFree Expr.ScriptFree

theorem Perspective.scriptFree_expr (p : Perspective) (reach : Reach) (value : Json) :
    Ensures Expr.ScriptFree (p.expr reach value) := by
  refine Ensures.map (P := Expr.ScriptFree) ?_ fun _ h => h.simplify
  unfold resolved
  split
  · exact .throw _
  next e he => exact .after fun names => .pure (Expr.scriptFree_ofJson rfl he).rename

theorem Perspective.reads_scriptFree (p : Perspective) :
    p.Reads (fun _ => True) Expr.ScriptFree Expr.ScriptFree where
  text _ := trivial
  items _ _ _ := trivial
  fields _ _ _ := trivial
  shallow v _ := p.scriptFree_expr _ v
  deep v _ := p.scriptFree_expr _ v
  filter v _ := (p.scriptFree_expr _ v).map fun _ h =>
    Expr.ScriptFree.simplify (Expr.over_unary.2 h)
  always := Expr.over_const _
  whole := Expr.scriptFree_var _ _
  leaves := Expr.scriptFree_leaves _
  weaken h := h
  numeric := Expr.Over.numericOnly
  numericDeep := Expr.Over.numericOnly

theorem Query.scriptFree_ofJson (now : Float) (schema : Schema) (jx : Json) :
    Ensures ScriptFree (ofJson now schema jx) :=
  holds_ofJson (S := fun _ => Expr.ScriptFree) (fun _ => Perspective.reads_scriptFree _) trivial

end Snowbank
