import Snowbank.Response.Documents

/-!
# Answers

The answer to a query, built from the rows of its result in the format that
the query asks for.
-/

namespace Snowbank

open DocumentLayout (cell)

/-- The columns of a result that make up one output. -/
structure PushColumn where
  name : String
  isEdge : Bool
  parts : List ColumnMapping

namespace PushColumn

/-- The outputs of a result, in order. -/
def ofMapping (mapping : List ColumnMapping) : List PushColumn :=
  let count := (mapping.head?.map ColumnMapping.numPushColumns).getD 0
  (List.range count).filterMap fun i =>
    match mapping.filter fun m => m.pushColumn == i with
    | [] => none
    | first :: rest => some ⟨first.pushName, first.isEdge, first :: rest⟩

/-- The number of the partition of an edge in a row. -/
def edgeIndex (c : PushColumn) (row : List Json) : Option Nat :=
  (c.parts.find? fun m => m.pushChild == "index").bind fun m =>
    (cell row m.pull).nat?

/-- The partition of an edge in a row. -/
def edgeValue (c : PushColumn) (edge : Edge) (row : List Json) : Json :=
  match edge.domain with
  | .set partitions => ((c.edgeIndex row).bind fun i => partitions[i]?).getD .null
  | _ =>
    ((c.parts.find? fun m => m.pushChild == Path.root).map fun m =>
      (cell row m.pull).decode).getD .null

/-- An output that is put together from its parts. -/
def partsValue (c : PushColumn) (row : List Json) : Json :=
  c.parts.foldl (fun out m =>
    let v := (cell row m.pull).decode
    if v.isNull then out else out.setPath m.pushChild v) .null

/-- An output in a row. -/
def value (c : PushColumn) (q : Query) (row : List Json) : Json :=
  if c.isEdge then
    match q.edges.find? fun e => e.name == c.name with
    | some edge => c.edgeValue edge row
    | none => .null
  else
    match c.parts with
    | [m] =>
      if m.pushChild == Path.root then (cell row m.pull).decode
      else c.partsValue row
    | _ => c.partsValue row

end PushColumn

namespace Plan

/-- What every answer begins with. -/
def metadata (q : Query) : String × Json :=
  ("meta", .mkObj [("format", .str q.format.name)])

/-- A row as an object of its outputs. -/
def rowObject (columns : List PushColumn) (q : Query) (row : List Json) : Json :=
  columns.foldl (fun object c =>
    let v := c.value q row
    if v.isNull then object else object.setPath c.name v) (.obj [])

/-- The partitions of an edge that rows have, in order, by their numbers. -/
def seenPartitions (c : PushColumn) (edge : Edge) (rows : List (List Json)) :
    List (Nat × Json) :=
  rows.foldl (fun seen row =>
    match c.edgeIndex row with
    | none => seen
    | some i =>
      if Ordered.contains i seen then seen else Ordered.insert i (c.edgeValue edge row) seen) []

/-- The interval at a position of a domain, cut at its upper bound. -/
def intervalJson (min max step : Float) (i : Nat) : Json :=
  let lower := min + Float.ofNat i * step
  .mkObj [("min", .ofFloat lower), ("max", .ofFloat (smaller (lower + step) max))]

/-- The partitions of an edge as an answer shows them. -/
def partitionsJson (edge : Edge) (seen : List (Nat × Json)) : Json :=
  match edge.domain with
  | .set partitions => .arr partitions
  | .observed => .arr ((seen.map Prod.snd).filter (!·.isNull))
  | .intervals _ min max step =>
    .arr ((List.range (edge.domain.intervalCount?.getD 0)).map (intervalJson min max step))

/-- An edge of a cube, and how many partitions it has. -/
def cubeEdge (columns : List PushColumn) (rows : List (List Json)) (edge : Edge) :
    Except CompileError (Json × Nat) :=
  match columns.find? fun c => c.isEdge && c.name == edge.name with
  | none => .error (.noEdgeColumn edge.name)
  | some c =>
    let seen := seenPartitions c edge rows
    .ok (.mkObj [("name", .str edge.name), ("allowNulls", .bool edge.allowNulls),
      ("domain", .mkObj
        [("type", .str edge.domain.name), ("partitions", partitionsJson edge seen)])],
      seen.length)

/-- The cells of a cube as nested arrays. The first dimension varies fastest:
    the cell at `i` of a dimension is `i` strides on. -/
def nestCells (values : List Json) : List Nat → Nat → Nat → Json
  | [], offset, _ => (values[offset]?).getD .null
  | size :: sizes, offset, stride =>
    .arr ((List.range size).map fun i =>
      nestCells values sizes (offset + i * stride) (stride * size))

/-- The columns of a cube as an answer shows them. -/
def selectJson (q : Query) : Json :=
  let named (c : SelectColumn) : Json := .mkObj [("name", .str c.name)]
  if q.selectSingle then
    .mkObj [("name", .optStr (q.select.head?.map SelectColumn.name))]
  else .arr (q.select.map named)

/-- The answer in the cube format. -/
def cube (plan : Plan) (q : Query) (rows : List (List Json)) : Except CompileError Json := do
  let columns := PushColumn.ofMapping plan.mapping
  let selects := columns.filter (!·.isEdge)
  match plan.shape with
  | .aggregate =>
    let data := selects.map fun c => (c.name, (rows.head?.map (c.value q)).getD .null)
    return .mkObj [metadata q, ("edges", .arr []), ("select", selectJson q), ("data", .mkObj data)]
  | .edges =>
    let edges ← q.edges.mapM (cubeEdge columns rows)
    let sizes := edges.map Prod.snd
    let cells := sizes.foldl (· * ·) 1
    if cells != rows.length then throw (.cubeSize sizes cells rows.length)
    let data := selects.map fun c => (c.name, nestCells (rows.map (c.value q)) sizes 0 1)
    return .mkObj [metadata q, ("edges", .arr (edges.map Prod.fst)), ("select", selectJson q),
      ("data", .mkObj data)]
  | _ => throw .cubeWithoutEdges

def documentAnswer (plan : Plan) (q : Query) (rows : List (List Json)) :
    Except CompileError Json := do
  match plan.documents with
  | none => throw .noLayout
  | some layout =>
    let docs ← layout.documents rows
    match q.format with
    | .table =>
      return .mkObj [metadata q, ("header", .strings ["."]),
        ("data", .arr (docs.map fun d => .arr [d]))]
    | .list => return .mkObj [metadata q, ("data", .arr docs)]
    | .cube => throw .cubeWithoutEdges

/-- The answer to another query. -/
def valueAnswer (plan : Plan) (q : Query) (rows : List (List Json)) : Except CompileError Json :=
  let columns := PushColumn.ofMapping plan.mapping
  match q.format with
  | .list =>
    let objects := rows.map (rowObject columns q)
    let data := if plan.shape == .aggregate then objects.head?.getD (.obj []) else .arr objects
    .ok (.mkObj [metadata q, ("data", data)])
  | .table =>
    .ok (.mkObj [metadata q, ("header", .strings (columns.map PushColumn.name)),
      ("data", .arr (rows.map fun row => .arr (columns.map fun c => c.value q row)))])
  | .cube => plan.cube q rows

/-- The answer to a query, from the rows of its result. -/
def assemble (plan : Plan) (q : Query) (rows : List (List Json)) : Except CompileError Json :=
  let width := plan.mapping.length
  match rows.find? fun row => row.length != width with
  | some row => .error (.rowWidth width row.length)
  | none =>
    if plan.shape == .documents then plan.documentAnswer q rows else plan.valueAnswer q rows

end Plan

end Snowbank
