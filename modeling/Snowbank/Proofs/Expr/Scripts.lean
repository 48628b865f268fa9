import Snowbank.Proofs.Expr.Over
import Snowbank.Proofs.Expr.Reading

/-!
# Expressions Without Scripts

A script is SQL text that is taken over as it is. Where scripts are not allowed,
none is read, and nothing that is done with an expression afterwards makes one.

## Main definitions

* `ScriptFree`: No node is a script.

## Theorems

* `scriptFree_ofJson`: No script is read.
* `ScriptFree.simplify`: Simplifying makes none.
* `ScriptFree.missing`: Neither does the test for a missing value.
-/

namespace Snowbank.Expr

open List

variable {e : Expr}

/-- No node is a script. -/
abbrev ScriptFree (e : Expr) : Prop := e.Over fun n => n.isScript = false

instance : Inherited fun n => n.isScript = false where
  operator {e} h := by
    cases e with
    | script => cases h
    | _ => rfl
  get _ := ⟨fun _ _ => rfl, fun _ _ => rfl⟩

theorem scriptFree_leaf (hown : e.isScript = false) (hkids : e.children = []) : e.ScriptFree :=
  (over_iff e).2 ⟨hown, by rw [hkids]; exact forall_mem_nil _⟩

@[simp] theorem scriptFree_var (path : Path) (type : DataType) : (var path type).ScriptFree :=
  scriptFree_leaf rfl rfl

@[simp] theorem scriptFree_leaves (path : Path) : (leaves path).ScriptFree :=
  scriptFree_leaf rfl rfl

@[simp] theorem scriptFree_rows (path : Path) (shift : Int) : (rows path shift).ScriptFree :=
  scriptFree_leaf rfl rfl

@[simp] theorem not_scriptFree_script (sql : String) : ¬(script sql).ScriptFree :=
  fun h => Bool.noConfusion ((over_iff _).1 h).1

section

variable {s : Schema}

theorem ScriptFree.simplify (h : e.ScriptFree) : (e.simplify s).ScriptFree :=
  Over.simplify ⟨fun _ => over_bind (fun _ => rfl) s _, fun _ => over_bind (fun _ => rfl) s _⟩ h

theorem ScriptFree.missing (h : e.ScriptFree) : e.missing.ScriptFree :=
  Over.missingWith (fun _ h => (ScriptFree.simplify h).missingPlain) h

end

theorem ScriptFree.mapPath {g : Path → Path} (h : e.isScript = false)
    (hleaf : e.children = []) : (e.mapPath g).ScriptFree := by
  unfold Expr.mapPath
  split
  · exact scriptFree_var _ _
  · exact scriptFree_leaves _
  · exact scriptFree_rows _ _
  · exact scriptFree_leaf h hleaf

theorem ScriptFree.rename {names : List (Path × Path)} (h : e.ScriptFree) :
    (e.rename names).ScriptFree :=
  Over.mapLeaves (fun _ hleaf hown => ScriptFree.mapPath hown hleaf) (fun _ _ _ => rfl) h

section

variable {settings : ReadOptions}

theorem keeps_scriptFree (hscript : settings.allowScript = false) :
    Reading.Keeps settings (fun _ => True) fun e => e.ScriptFree where
  null := trivial
  int _ := trivial
  computed _ := trivial
  constant _ := trivial
  items _ _ _ := trivial
  fields _ _ _ := trivial
  script hallowed := absurd (hscript.symm.trans hallowed) Bool.false_ne_true
  node hown _ hkids := (over_iff _).2 ⟨hown, hkids⟩

theorem scriptFree_ofJson (hscript : settings.allowScript = false)
    {v : Json} (h : ofJson settings v = .ok e) : e.ScriptFree :=
  (keeps_scriptFree hscript).ofJson trivial h

end

end Snowbank.Expr
