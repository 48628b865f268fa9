import Snowbank.Path

/-!
# Looking Into Documents

The values at a path of a document. Where the path leads through an array of
documents it leads into each of them, so that there may be many values.
-/

namespace Snowbank.Json

/-- The values one key further: the field of an object, or the fields of the objects in an array. -/
def follow (key : String) : Json → List Json
  | .obj fields => (Ordered.get? key fields).toList
  | .arr items => items.filterMap (get? key)
  | _ => []

/-- The values reached so far, and whether an array was passed. -/
structure Reached where
  fanned : Bool
  values : List Json

/-- Follow a key from all values reached. -/
def Reached.step (r : Reached) (key : String) : Reached :=
  ⟨r.fanned || r.values.any isArr, r.values.flatMap (follow key)⟩

/-- The present values among those reached, with arrays flattened. -/
def Reached.present (r : Reached) : List Json :=
  r.values.flatMap fun v => v.asList.filter (!·.isNull)

/-- What there is at the places reached: an array if one was passed, and a
    single value or null otherwise. -/
def Reached.result (r : Reached) : Json :=
  if r.fanned || r.values.any isArr then .arr r.present else r.present.head?.getD .null

/-- The value at a path of a document. -/
def lookup (document : Json) (path : Path) : Json :=
  if path == Path.root then document
  else (path.keys.foldl Reached.step ⟨false, [document]⟩).result

mutual

/-- Collect the values that are not objects, by path. -/
def collectLeaves (path : Path) : Json → Fields → Fields
  | .obj fields, found => collectFields path fields found
  | .null, found => found
  | value, found => Ordered.insert path value found

/-- Collect the values of fields that are not objects, by path. -/
def collectFields (path : Path) : List (String × Json) → Fields → Fields
  | [], found => found
  | (key, value) :: rest, found =>
    collectFields path rest (collectLeaves (path.append (Path.ofKeys [key])) value found)

end

/-- The values of an object and of the objects inside it, by path. -/
def leaves (value : Json) : Json :=
  .obj (collectLeaves Path.root value [])

end Snowbank.Json
