import Snowbank.Expr.Error
import Snowbank.Path

/-!
# Errors in Queries

Why a JSON value is not a query about the documents of a schema.
-/

namespace Snowbank

open Text (quoted)

/-- Why a JSON value is not a query. -/
inductive QueryError where
  | notObject
  | unknownProperty (name : String)
  | noSource
  | badSource (source : String)
  | unknownTable (fact : String)
  | notNested (source : String)
  | edgesAndGroups
  | emptySelect
  | badSelect (value : Json)
  | unknownAggregate (name : String)
  | badAggregate (value : Json)
  | selectNameForm
  | selectUnnamed
  | percentile (share : Float)
  /-- An edge or a group key without a name. -/
  | unnamed (what : String)
  | badEntry (what : String) (value : Json)
  | badSort (value : Json)
  | badDirection (text : String)
  | windowForm
  | windowUnnamed
  | windowValue
  | windowRange (value : Json)
  | badLimit (value : Json)
  | unknownFormat (name : String)
  | cubeOfGroups
  | noColumn (path queryPath : Path)
  | depth (path queryPath : Path)
  | badDomain (value : Json)
  | domainNumber (kind key : String)
  | domainField (kind key : String)
  | domainBounds (kind : String) (min max : Float)
  | domainStep (kind : String) (step : Float)
  | noPartitions
  | unknownDomain (kind : String)
  | expr (error : ExprError)
  | moment (error : MomentError)

namespace QueryError

def kind : QueryError → ErrorKind
  | unknownTable _ | notNested _ | noColumn _ _ => .schema
  | depth _ _ => .depth
  | percentile _ | badDomain _ | domainNumber _ _ | domainField _ _ | domainBounds _ _ _
  | domainStep _ _ | noPartitions | unknownDomain _ => .domain
  | expr e => e.kind
  | moment e => e.kind
  | _ => .parse

/-- What is wrong, without the kind. -/
def detail : QueryError → String
  | notObject => "Query must be an object"
  | unknownProperty name => "Unknown query property " ++ quoted name
  | noSource => "Query requires a string \x60from\x60"
  | badSource source => "Bad from " ++ quoted source
  | unknownTable fact => "Unknown table " ++ quoted fact
  | notNested source => quoted source ++ " is not a nested table"
  | edgesAndGroups => "Query can not have both edges and groupby"
  | emptySelect => "select list is empty"
  | badSelect value => "Bad select column " ++ value.toText
  | unknownAggregate name => "Unknown aggregate " ++ quoted name
  | badAggregate value => "Bad aggregate " ++ value.toText
  | selectNameForm => "select name must be a string"
  | selectUnnamed => "select column requires a name"
  | percentile share => "percentile " ++ Layout.plain.render share ++ " outside [0, 1]"
  | unnamed what => what ++ " requires a name"
  | badEntry what value => "Bad " ++ what ++ " " ++ value.toText
  | badSort value => "Bad sort " ++ value.toText
  | badDirection text => "Bad sort direction " ++ text
  | windowForm => "window must be an object"
  | windowUnnamed => "window requires a name"
  | windowValue => "window requires a value"
  | windowRange value => "Bad window range " ++ value.toText
  | badLimit value => "limit must be a non-negative integer, not " ++ value.toText
  | unknownFormat name => "Unknown format " ++ quoted name
  | cubeOfGroups => "cube format requires edges, not groupby"
  | noColumn path queryPath =>
    "No column " ++ quoted path ++ " reachable from " ++ quoted queryPath
  | depth path queryPath =>
    "Variable " ++ path ++ " is not reachable from query path " ++ queryPath
  | badDomain value => "Bad domain " ++ value.toText
  | domainNumber kind key => kind ++ " domain requires numeric " ++ key
  | domainField kind key => kind ++ " domain requires " ++ key
  | domainBounds kind min max =>
    kind ++ " domain has min " ++ Layout.plain.render min ++ " >= max " ++ Layout.plain.render max
  | domainStep kind step => kind ++ " domain has interval " ++ Layout.plain.render step
  | noPartitions => "set domain requires partitions"
  | unknownDomain kind => "Unknown domain type " ++ quoted kind
  | expr e => e.message
  | moment e => e.message

def message (e : QueryError) : String :=
  match e with
  | expr e => e.message
  | moment e => e.message
  | depth _ _ => e.detail
  | e =>
    match e.kind with
    | .schema => "Schema error: " ++ e.detail
    | .domain => "Domain error: " ++ e.detail
    | _ => "Parse error: " ++ e.detail

end QueryError

end Snowbank
