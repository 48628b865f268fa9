import Snowbank.Json.Reader
import Snowbank.Response.Place

/-!
# Stored Values as Documents

What a store returns is not yet what was stored: whole numbers come as
doubles, structs have names with types, and arrays of arrays are text.
-/

namespace Snowbank.Json

/-- The value of a column of a type, given what it decodes to. -/
def typedValue (type : DataType) (raw decoded : Json) : Json :=
  match type, raw with
  | _, .null => .null
  | .presence, _ => .null
  | .object, .str text => (parse? text).getD (.str text)
  | _, _ => decoded

/-- Where the value of a field of a struct goes, and the type of its column. -/
def fieldPlace (key : String) : Path × Option DataType :=
  match Path.untyped? key with
  | some (path, type) => (path, some type)
  | none => (Path.root.append (Path.escapeKey key), none)

/-- Put the value of a field of a struct where it belongs. -/
def placeField (target : Json) (key : String) (raw decoded : Json) : Json :=
  let (path, type) := fieldPlace key
  let value :=
    match type with
    | some t => typedValue t raw decoded
    | none => decoded
  if value.isNull then target else target.setPath path value

mutual

/-- The value that a returned value stands for. Numbers without a fractional
    part are integers, and a struct is an object without its nulls. -/
def decode : Json → Json
  | .num n =>
    match n.toInt64? with
    | some i => .int i
    | none => .ofFloat n.toFloat
  | .arr items => .arr (decodeItems items)
  | .obj fields => decodeFields .null fields
  | value => value

/-- The values of a list. A struct without values is an empty object here. -/
def decodeItems : List Json → List Json
  | [] => []
  | item :: rest =>
    let value := decode item
    (if item.isObj && value.isNull then .obj [] else value) :: decodeItems rest

/-- Put the fields of a struct where they belong. -/
def decodeFields (target : Json) : List (String × Json) → Json
  | [] => target
  | (key, raw) :: rest => decodeFields (placeField target key raw (decode raw)) rest

end

end Snowbank.Json
