import Snowbank.Json.Basic
import Snowbank.Number.Layout

/-!
# JSON Text

The compact text of a value: no blanks, fields in key order, and only the
characters escaped that must be.
-/

namespace Snowbank.Json

/-- Fractions are written in place from `1e-5` up to below `1e16` and always
    show a decimal; beyond that they carry a signed exponent. -/
def numberLayout : Layout := ⟨fun lead => -5 ≤ lead && lead ≤ 15, true, true⟩

/-- Two hexadecimal digits. -/
def hexByte (n : Nat) : String :=
  String.ofList [Nat.digitChar (n / 16), Nat.digitChar (n % 16)]

def escapeChar (c : Char) : String :=
  match c with
  | '"' => "\\\""
  | '\\' => "\\\\"
  | '\x08' => "\\b"
  | '\x0c' => "\\f"
  | '\n' => "\\n"
  | '\r' => "\\r"
  | '\t' => "\\t"
  | c => if c.toNat < 0x20 then "\\u00" ++ hexByte c.toNat else c.toString

/-- A string with its quotes. -/
def stringText (s : String) : String :=
  "\"" ++ String.join (s.toList.map escapeChar) ++ "\""

def numberText : Number → String
  | .int n => toString n
  | .float x => (numberLayout.render? x).getD "null"

mutual

/-- The compact text of a value. -/
def toText : Json → String
  | .null => "null"
  | .bool true => "true"
  | .bool false => "false"
  | .num n => numberText n
  | .str s => stringText s
  | .arr items => "[" ++ ",".intercalate (itemTexts items) ++ "]"
  | .obj fields => "\x7b" ++ ",".intercalate (fieldTexts fields) ++ "\x7d"

/-- The texts of the items of an array. -/
def itemTexts : List Json → List String
  | [] => []
  | item :: rest => toText item :: itemTexts rest

/-- The texts of the fields of an object. -/
def fieldTexts : Fields → List String
  | [] => []
  | (key, value) :: rest => (stringText key ++ ":" ++ toText value) :: fieldTexts rest

end

end Snowbank.Json
