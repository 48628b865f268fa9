import Snowbank.Plan.Basic
import Snowbank.Response.Decode

/-!
# Documents From Rows

The rows of a result of documents come in an order in which each row follows
its parent, with only the rows of the parent's own branches between. So it is
enough to keep the rows on the way from a document down to the last row; as
soon as a row does not belong there, the last one is complete and goes into
its parent.
-/

namespace Snowbank

/-- A row that may still get items. -/
structure Frame where
  table : Nat
  uid : Json
  value : Json

/-- The table at a position. -/
def DocumentLayout.table? (layout : DocumentLayout) (i : Nat) : Option TableLayout :=
  layout.tables[i]?

namespace Frame

/-- Put a complete row into its parent. -/
def attach (layout : DocumentLayout) (parent child : Frame) : Frame :=
  let path := ((layout.table? child.table).map TableLayout.path).getD Path.root
  { parent with value := parent.value.appendAt path child.value }

/-- Complete rows, the innermost first, until one is to be kept. The documents
    completed come with those that were complete before. -/
def unwindFrom (layout : DocumentLayout) (keep : Frame → Bool) (docs : List Json) :
    Frame → List Frame → List Frame × List Json
  | f, [] => if keep f then ([f], docs) else ([], docs ++ [f.value])
  | f, parent :: rest =>
    if keep f then (f :: parent :: rest, docs)
    else unwindFrom layout keep docs (attach layout parent f) rest

/-- Complete rows until one is to be kept. -/
def unwind (layout : DocumentLayout) (keep : Frame → Bool) (docs : List Json) :
    List Frame → List Frame × List Json
  | [] => ([], docs)
  | f :: rest => unwindFrom layout keep docs f rest

end Frame

namespace DocumentLayout

def cell (row : List Json) (i : Nat) : Json := (row[i]?).getD .null

def rowValue (table : TableLayout) (row : List Json) : Json :=
  let value := table.columns.foldl (fun out (pull, column) =>
    match Path.untyped? column with
    | none => out
    | some (path, type) =>
      let raw := cell row pull
      let v := Json.typedValue type raw raw.decode
      if v.isNull then out else out.setPath path v) Json.null
  if value.isNull then .obj [] else value

def tableOf (layout : DocumentLayout) (row : List Json) : Except CompileError (Nat × TableLayout) :=
  let kind := cell row layout.kind
  match kind.nat?.bind fun i => (layout.table? i).map fun t => (i, t) with
  | some found => .ok found
  | none => .error (.badTable kind)

/-- Take one more row. -/
def step (layout : DocumentLayout) (state : List Frame × List Json) (row : List Json) :
    Except CompileError (List Frame × List Json) := do
  let (index, table) ← layout.tableOf row
  let frame : Frame := ⟨index, cell row layout.uid, rowValue table row⟩
  let (stack, docs) := state
  match table.parent with
  | none =>
    let (_, docs) := Frame.unwind layout (fun _ => false) docs stack
    return ([frame], docs)
  | some parent =>
    let pid := cell row layout.pid
    match Frame.unwind layout (fun f => f.table == parent && f.uid == pid) docs stack with
    | ([], _) => throw (.noParent table.nestedPath pid)
    | (stack, docs) => return (frame :: stack, docs)

/-- The documents of a result. -/
def documents (layout : DocumentLayout) (rows : List (List Json)) :
    Except CompileError (List Json) := do
  let (stack, docs) ← rows.foldlM layout.step ([], [])
  return (Frame.unwind layout (fun _ => false) docs stack).2

end DocumentLayout

end Snowbank
