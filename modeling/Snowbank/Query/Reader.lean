import Snowbank.Digest
import Snowbank.Expr.Parser
import Snowbank.Expr.Simplify
import Snowbank.Query.Basic
import Snowbank.Query.Error

/-!
# Reading Queries

Queries from their JSON form, about the documents of a schema.

A path is written from the perspective of the query: it is sought beneath the
array of documents that the query is about, then beneath each array and
object around that. Columns and filters may also read values from deeper
arrays; groups, edges, sort keys and windows may not, since those have many
values where one is needed.
-/

namespace Snowbank

open Ordered (contains get?)
open Path (ofKeys root)

/-- What expressions are read against. -/
structure Perspective where
  schema : Schema
  queryPath : Path
  /-- The present, for moments that depend on it. -/
  now : Float

/-- Where the values of an expression may come from. -/
inductive Reach where
  /-- The rows of the query and the documents around them. -/
  | shallow
  /-- Also the arrays inside them. -/
  | deep
  deriving DecidableEq

namespace Perspective

/-- Something is, or may be, stored at a path or beneath it. -/
def hasColumns (p : Perspective) (path : Path) : Bool :=
  match p.schema.typesAt path with
  | none => true
  | some types => !types.isEmpty || p.schema.isNested path || p.schema.hasDescendants path

/-- The paths that a written path may stand for, the deepest first. -/
def candidates (p : Perspective) (path : Path) : List Path :=
  let keys := p.queryPath.keys
  (List.range (keys.length + 1)).reverse.map fun n => (ofKeys (keys.take n)).append path

/-- The path from the root that a written path stands for. -/
def resolve (p : Perspective) (path : Path) : Except QueryError Path :=
  if path == root then .ok path
  else
    match (p.candidates path).find? p.hasColumns with
    | some full => .ok full
    | none => .error (.noColumn path p.queryPath)

/-- The values at a path can be reached. -/
def reaches (p : Perspective) (reach : Reach) (path : Path) : Bool :=
  let nested := p.schema.nestedPathOf path
  path == root || p.queryPath.isUnder nested || (reach == .deep && nested.isUnder p.queryPath)

/-- The path from the root that a written path stands for, if its values can be reached. -/
def locate (p : Perspective) (reach : Reach) (path : Path) : Except QueryError (Path × Path) := do
  let full ← p.resolve path
  if p.reaches reach full then return (path, full) else throw (.depth full p.queryPath)

/-- A JSON value as an expression over paths from the root. -/
def resolved (p : Perspective) (reach : Reach) (value : Json) : Except QueryError Expr := do
  match Expr.ofJson ⟨false, p.now⟩ value with
  | .error e => throw (.expr e)
  | .ok e =>
    let names ← e.vars.mapM (p.locate reach)
    return e.rename names

/-- A JSON value as an expression in simple form. -/
def expr (p : Perspective) (reach : Reach) (value : Json) : Except QueryError Expr :=
  (p.resolved reach value).map (·.simplify p.schema)

def filter (p : Perspective) (value : Json) : Except QueryError Expr :=
  (p.expr .deep value).map fun e => (Expr.unary (.convert .boolean) e).simplify p.schema

end Perspective

/-- The numbers of a field that is stored under several types. -/
def Expr.numericOnly (e : Expr) : Expr :=
  match e.alternatives? with
  | none => e
  | some terms =>
    match terms.filter (·.dataType.isNumeric) with
    | [] => null
    | [x] => x
    | xs => coalesce xs

def Aggregate.read (name : String) : Except QueryError Aggregate :=
  match ofName? name with
  | some a => .ok a
  | _ => .error (.unknownAggregate name)

namespace SelectColumn

/-- A column without an aggregate. -/
def plain (name : String) (value : Expr) : SelectColumn := ⟨name, value, .none, none, none⟩

/-- The whole document. -/
def whole : SelectColumn := plain wholeDocument (.field root)

/-- The number of rows. -/
def rowCount : SelectColumn :=
  ⟨"count", .field root, .count, some (.nat 0), none⟩

def readAggregate (fields : Fields) : Except QueryError Aggregate :=
  match get? "aggregate" fields with
  | none => .ok .none
  | some (.str name) => Aggregate.read name
  | some value => .error (.badAggregate value)

/-- The name of a column: as given, else the path it shows, else the name of its aggregate. -/
def readName (fields : Fields) (aggregate : Aggregate) : Except QueryError String :=
  match get? "name" fields, get? "value" fields with
  | some (.str name), _ => .ok name
  | some _, _ => .error .selectNameForm
  | none, some (.str path) =>
    if path != root then .ok path
    else if aggregate != .none then .ok aggregate.name
    else .error .selectUnnamed
  | none, _ => if aggregate != .none then .ok aggregate.name else .error .selectUnnamed

/-- What a column shows, by default the field of its name. -/
def rawValue (fields : Fields) (aggregate : Aggregate) (name : String) : Json :=
  match get? "value" fields with
  | some value => value
  | none => if aggregate == .count then .str root else .str name

/-- What a column shows. A dot is the whole row and a star all its values. -/
def readValue (p : Perspective) (value : Json) : Except QueryError Expr :=
  match value with
  | .str "." => .ok (.field root)
  | .str "*" => .ok (.leaves root)
  | value => p.expr .deep value

/-- The share of a percentile, by default a half. -/
def readPercentile (fields : Fields) (aggregate : Aggregate) :
    Except QueryError (Option Float) :=
  if aggregate == .percentile then
    let share := ((get? "percentile" fields).bind Json.float?).getD 0.5
    if 0.0 ≤ share && share ≤ 1.0 then .ok (some share) else .error (.percentile share)
  else .ok none

def ofJson (p : Perspective) (value : Json) : Except QueryError SelectColumn :=
  match value with
  | .str "." => .ok whole
  | .str "*" => .ok (plain "*" (.leaves root))
  | .str path => (p.expr .deep value).map (plain path)
  | .obj fields => do
    let aggregate ← readAggregate fields
    let name ← readName fields aggregate
    let value ← readValue p (rawValue fields aggregate name)
    let value := if aggregate.isNumeric then value.numericOnly else value
    let default :=
      match get? "default" fields with
      | some v => some v
      | none => if aggregate == .count then some (.nat 0) else none
    let percentile ← readPercentile fields aggregate
    return ⟨name, value, aggregate, default, percentile⟩
  | value => .error (.badSelect value)

def listOfJson (p : Perspective) (value : Json) : Except QueryError (List SelectColumn) := do
  match ← value.asList.mapM (ofJson p) with
  | [] => throw .emptySelect
  | columns => return columns

end SelectColumn

namespace Domain

def number (fields : Fields) (kind key : String) : Except QueryError Float :=
  match (get? key fields).bind Json.float? with
  | some x => .ok x
  | none => .error (.domainNumber kind key)

/-- A moment or duration of a domain. -/
def measure (read : Json → Except MomentError Float) (fields : Fields) (kind key : String) :
    Except QueryError Float :=
  match get? key fields with
  | none => .error (.domainField kind key)
  | some value =>
    match read value with
    | .ok x => .ok x
    | .error e => .error (.moment e)

/-- Intervals between bounds in order, of a positive length. -/
def checked (kind : IntervalKind) (min max step : Float) : Except QueryError Domain :=
  if min >= max then .error (.domainBounds kind.name min max)
  else if step <= 0.0 then .error (.domainStep kind.name step)
  else .ok (.intervals kind min max step)

/-- The value of a partition, which may be given with more about it. -/
def partition (value : Json) : Json :=
  (value.get? "value").getD value

def ofJson (now : Float) (value : Json) : Except QueryError Domain :=
  match value with
  | .obj fields =>
    match ((get? "type" fields).bind Json.str?).getD "default" with
    | "default" => .ok .observed
    | "set" =>
      match get? "partitions" fields with
      | some (.arr items) => .ok (.set (items.map partition))
      | _ => .error .noPartitions
    | "range" => do
      let min ← number fields "range" "min"
      let max ← number fields "range" "max"
      let step ← number fields "range" "interval"
      checked .range min max step
    | "time" => do
      let min ← measure (Moment.ofJson now) fields "time" "min"
      let max ← measure (Moment.ofJson now) fields "time" "max"
      let step ← measure Duration.ofJson fields "time" "interval"
      checked .time min max step
    | "duration" => do
      let min ← measure Duration.ofJson fields "duration" "min"
      let max ← measure Duration.ofJson fields "duration" "max"
      let step ← measure Duration.ofJson fields "duration" "interval"
      checked .duration min max step
    | kind => .error (.unknownDomain kind)
  | value => .error (.badDomain value)

end Domain

/-- The name and expression of an edge or a group key, and its options. -/
def namedValue (p : Perspective) (what : String) (value : Json) :
    Except QueryError (String × Expr × Fields) :=
  match value with
  | .str path => (p.expr .shallow value).map fun e => (path, e, [])
  | .obj fields => do
    let raw := get? "value" fields
    let name? :=
      match get? "name" fields, raw with
      | some n, _ => n.str?
      | none, some v => v.str?
      | none, none => none
    match name? with
    | none => throw (.unnamed what)
    | some name =>
      let e ← p.expr .shallow (raw.getD (.str name))
      return (name, e, fields)
  | value => .error (.badEntry what value)

def GroupBy.ofJson (p : Perspective) (value : Json) : Except QueryError GroupBy :=
  (namedValue p "groupby" value).map fun (name, e, _) => ⟨name, e⟩

def Edge.ofJson (p : Perspective) (value : Json) : Except QueryError Edge := do
  let (name, e, fields) ← namedValue p "edge" value
  let domain ←
    match get? "domain" fields with
    | some d => Domain.ofJson p.now d
    | none => pure .observed
  let allowNulls := ((get? "allowNulls" fields).bind Json.bool?).getD true
  return ⟨name, e, domain, allowNulls⟩

namespace SortKey

/-- A sort direction: a number by its sign, or a word. -/
def readDirection (value : Json) : Except QueryError Int :=
  match value with
  | .num n =>
    match n.toInt64? with
    | some d => .ok (if d > 0 then 1 else if d < 0 then -1 else 0)
    | none => .error (.badDirection value.toText)
  | .str "asc" | .str "ascending" => .ok 1
  | .str "desc" | .str "descending" => .ok (-1)
  | .str "none" => .ok 0
  | .str word => .error (.badDirection (Text.quoted word))
  | .null => .ok 1
  | value => .error (.badDirection value.toText)

/-- A key to sort by: a column of the answer if there is one of that name, else an expression. -/
def key (p : Perspective) (outputs : List (String × Expr)) (value : Json) (direction : Int) :
    Except QueryError SortKey :=
  let named := value.str?.bind fun name => outputs.find? fun (n, _) => n == name
  match named with
  | some (name, e) => .ok ⟨e, direction, some name⟩
  | none => (p.expr .shallow value).map fun e => ⟨e, direction, none⟩

def ofJson (p : Perspective) (outputs : List (String × Expr)) (value : Json) :
    Except QueryError SortKey :=
  match value with
  | .str _ => key p outputs value 1
  | .obj fields =>
    match get? "value" fields, fields with
    | some v, _ => do
      key p outputs v (← readDirection ((get? "sort" fields).getD .null))
    | none, [(name, direction)] => do
      key p outputs (.str name) (← readDirection direction)
    | none, _ => .error (.badSort value)
  | value => .error (.badSort value)

def listOfJson (p : Perspective) (outputs : List (String × Expr)) (value : Json) :
    Except QueryError (List SortKey) :=
  value.asList.mapM (ofJson p outputs)

end SortKey

namespace Window

/-- What a window brings together; the number of the row is none of it. -/
def readValue (p : Perspective) (fields : Fields) : Except QueryError (Option Expr) :=
  match get? "value" fields with
  | some (.str "rownum") => .ok none
  | some v => (p.expr .shallow v).map some
  | none => .error .windowValue

/-- The first and the last row of a window. -/
def readRange (fields : Fields) : Except QueryError (Option (Option Int × Option Int)) :=
  match get? "range" fields with
  | none => .ok none
  | some (.obj bounds) =>
    .ok (some ((get? "min" bounds).bind Json.int64?,
      (get? "max" bounds).bind Json.int64?))
  | some value => .error (.windowRange value)

def ofJson (p : Perspective) (value : Json) : Except QueryError Window :=
  match value with
  | .obj fields =>
    match (get? "name" fields).bind Json.str? with
    | none => .error .windowUnnamed
    | some name => do
      let value ← readValue p fields
      let aggregate ←
        match (get? "aggregate" fields).bind Json.str? with
        | some a => Aggregate.read a
        | none => pure .none
      let value := if aggregate.isNumeric then value.map Expr.numericOnly else value
      let edges ←
        match get? "edges" fields with
        | some v => v.asList.mapM (p.expr .shallow)
        | none => pure []
      let sort ←
        match get? "sort" fields with
        | some v => SortKey.listOfJson p [] v
        | none => pure []
      let range ← readRange fields
      return ⟨name, value, aggregate, edges, sort, range⟩
  | _ => .error .windowForm

end Window

namespace Query

/-- The most rows of an answer, unless the query says. -/
def defaultLimit : Nat := 10

def properties : List String :=
  ["from", "select", "where", "edges", "groupby", "sort", "window", "limit", "format"]

def sourceKeys (jx : Json) : Except QueryError (String × List String) :=
  match (jx.get? "from").bind Json.str? with
  | none => .error .noSource
  | some source => .ok (source, Path.keys source)

/-- The collection that a query is about. -/
def factName (jx : Json) : Except QueryError String := do
  match ← sourceKeys jx with
  | (_, fact :: _) => return fact
  | (source, []) => throw (.badSource source)

/-- The digest of a query as written. -/
def fingerprintOf (jx : Json) : String := sha256Hex jx.toText

/-- A list of things, or none where the property is absent. -/
def readList {α : Type} (fields : Fields) (key : String) (read : Json → Except QueryError α) :
    Except QueryError (List α) :=
  match get? key fields with
  | some value => value.asList.mapM read
  | none => .ok []

/-- The columns of a query. Without any, a query that groups counts, and
    another one shows whole documents. -/
def readSelect (p : Perspective) (fields : Fields) (grouped : Bool) :
    Except QueryError (List SelectColumn × Bool) :=
  match get? "select" fields with
  | some value => (SelectColumn.listOfJson p value).map fun columns => (columns, !value.isArr)
  | none => .ok ([if grouped then .rowCount else .whole], true)

/-- The columns of the answer that a sort key can name. -/
def outputs (select : List SelectColumn) (groupby : List GroupBy) (edges : List Edge) :
    List (String × Expr) :=
  (select.filter (·.aggregate != .none)).map (fun c => (c.name, c.value)) ++
    groupby.map (fun g => (g.name, g.value)) ++ edges.map (fun e => (e.name, e.value))

/-- The most rows of the answer. -/
def readLimit (fields : Fields) : Except QueryError Nat :=
  match get? "limit" fields with
  | none | some .null => .ok defaultLimit
  | some value =>
    match value.nat? with
    | some n => .ok n
    | none => .error (.badLimit value)

/-- The shape of the answer. -/
def readFormat (fields : Fields) (hasEdges : Bool) : Except QueryError Format :=
  match (get? "format" fields).bind Json.str? with
  | none => .ok (if hasEdges then .cube else .list)
  | some "list" => .ok .list
  | some "table" => .ok .table
  | some "cube" => .ok .cube
  | some name => .error (.unknownFormat name)

/-- The source of a query: as written, the collection and the path in it. -/
def readSource (schema : Schema) (jx : Json) : Except QueryError (String × String × Path) := do
  match ← sourceKeys jx with
  | (source, []) => throw (.badSource source)
  | (source, fact :: keys) =>
    if !schema.fact.isEmpty && schema.fact != fact then throw (.unknownTable fact)
    let path := ofKeys keys
    if path != root && (schema.typesAt path).isSome && !schema.isNested path then
      throw (.notNested source)
    return (source, fact, path)

/-- A JSON value as a query about the documents of a schema. -/
def ofJson (now : Float) (schema : Schema) (jx : Json) : Except QueryError Query :=
  match jx with
  | .obj fields => do
    if let some (name, _) := fields.find? fun (key, _) => !properties.contains key then
      throw (.unknownProperty name)
    let (source, fact, queryPath) ← readSource schema jx
    let p : Perspective := ⟨schema, queryPath, now⟩
    if contains "edges" fields && contains "groupby" fields then
      throw .edgesAndGroups
    let edges ← readList fields "edges" (Edge.ofJson p)
    let groupby ← readList fields "groupby" (GroupBy.ofJson p)
    let (select, single) ← readSelect p fields (!edges.isEmpty || !groupby.isEmpty)
    let filter ←
      match get? "where" fields with
      | some value => p.filter value
      | none => pure .yes
    let sort ←
      match get? "sort" fields with
      | some value => SortKey.listOfJson p (outputs select groupby edges) value
      | none => pure []
    let window ← readList fields "window" (Window.ofJson p)
    let limit ← readLimit fields
    let format ← readFormat fields (!edges.isEmpty)
    if format == .cube && !groupby.isEmpty then throw .cubeOfGroups
    return { source, fact, queryPath, select, selectSingle := single, filter, edges, groupby, sort,
             window, limit, format, fingerprint := fingerprintOf jx }
  | _ => .error .notObject

end Query

end Snowbank
