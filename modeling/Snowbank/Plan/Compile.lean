import Snowbank.Plan.Documents
import Snowbank.Plan.Edges
import Snowbank.Plan.Rows

/-!
# The Plan of a Query

Every query has one of five shapes, and each shape its own plan.
-/

namespace Snowbank

/-- The plan of a query about the documents of a catalog. -/
def Query.plan (q : Query) (s : Snowflake) : Except CompileError Plan :=
  if q.fact != s.fact then .error (.query (.unknownTable q.fact))
  else if q.queryPath != Path.root && !s.isNested q.queryPath then
    .error (.query (.notNested q.source))
  else
    let shape := Shape.ofQuery q
    let scope : Scope := ⟨s, q.queryPath⟩
    if !q.window.isEmpty && shape != .setop then .error .windowShape
    else
      match shape with
      | .setop => Plan.rows q scope
      | .documents => Plan.wholeDocuments q scope
      | .aggregate | .grouped => Plan.grouped q scope shape
      | .edges => Plan.edges q scope

end Snowbank
