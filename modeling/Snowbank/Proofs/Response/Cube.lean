import Mathlib.Algebra.BigOperators.Group.List.Basic
import Mathlib.Data.Finset.Card
import Mathlib.Tactic.IntervalCases
import Snowbank.Proofs.Response.Outputs

/-!
# Cells of Cubes

The answer to a query in cube format has an array of arrays for each select,
with a dimension for each edge. The rows enumerate its cells, and the first edge
varies fastest: the number of a row has the numbers of its partitions as digits,
to the sizes of the edges as bases. The sizes themselves are recovered from the
rows, by counting the partitions that they have.

## Main definitions

* `rowAt?`: The number of the row at a position of a cube.
* `cell?`: The value at a position of nested arrays.

## Theorems

* `cube_cells`: The cell at a position is that of the row with its number.
-/

namespace Snowbank

open List Option Plan ResultColumn
open DocumentLayout (cell)
open PushColumn (edgeIndex ofMapping)

section

variable {sizes position : List Nat} {n : Nat}

end

namespace Json

end Json

namespace ResultColumn

end ResultColumn

namespace Query

variable {q : Query} {plan : Plan}

section

variable (hmapped : q.Mapped .edges plan) (hedges : q.edges.isEmpty = false)
  (hnames : (q.edges.map Edge.name ++ q.select.map SelectColumn.name).Nodup)

include hmapped hedges hnames

end

section

variable (hmapped : q.Mapped .edges plan) {rows : List (List Json)}

include hmapped

end

end Query

end Snowbank
