import Snowbank.Path

/-!
# Writing Into Values

Put a value at a path of another one. Objects on the way are made where there
is nothing; where there is something else, nothing is written.
-/

namespace Snowbank.Json

/-- Change the value that keys lead to, if nothing but objects is on the way. -/
def modifyAt? (change : Json → Json) : List String → Json → Option Json
  | [], value => some (change value)
  | key :: keys, .null =>
    (modifyAt? change keys .null).map fun value => .obj [(key, value)]
  | key :: keys, .obj fields =>
    (modifyAt? change keys ((Ordered.get? key fields).getD .null)).map fun value =>
      .obj (Ordered.insert key value fields)
  | _ :: _, _ => none

/-- Put a value in place of another one; the fields of an object are put beside those of another. -/
def mergeRoot : Json → Json → Json
  | .obj fields, .obj more =>
    .obj (more.foldl (fun all (key, value) => Ordered.insert key value all) fields)
  | _, value => value

/-- Put a value at a path. -/
def setPath (target : Json) (path : Path) (value : Json) : Json :=
  match path.keys with
  | [] => mergeRoot target value
  | keys => (modifyAt? (fun _ => value) keys target).getD target

/-- The array with one more item; anything else gives way to an array. -/
def pushed (item : Json) : Json → Json
  | .arr items => .arr (items ++ [item])
  | _ => .arr [item]

/-- Put an item at the end of the array at a path. -/
def appendAt (target : Json) (path : Path) (item : Json) : Json :=
  let target := if target.isNull then .obj [] else target
  (modifyAt? (pushed item) path.keys target).getD target

end Snowbank.Json
