import Snowbank.Json.Printer
import Snowbank.Json.Reader
import Snowbank.Text.Quoted

/-!
# Reading JSON of a Known Kind

Texts that must be a list of strings, or a list or nothing. A value of another
kind is named in the fault.
-/

namespace Snowbank.Json

namespace Reader

/-- A value is of another kind than the one asked for. It is read, so that the place of the fault is
    behind it; of a list or an object only the kind is looked at. -/
def mismatch {α : Type} (wanted : String) (cs : List Char) : Result α :=
  match cs with
  | [] => faultAt .valueUnfinished []
  | '[' :: rest => faultAt (.unexpected "sequence" wanted) ('[' :: rest)
  | '\x7b' :: rest => faultAt (.unexpected "map" wanted) ('\x7b' :: rest)
  | cs =>
    match value 1 1 cs with
    | .error f => .error f
    | .ok (.null, rest) => faultAt (.unexpected "null" wanted) rest
    | .ok (.bool b, rest) =>
      faultAt (.unexpected ("boolean \x60" ++ toString b ++ "\x60") wanted) rest
    | .ok (.num (.int n), rest) =>
      faultAt (.unexpected ("integer \x60" ++ toString n ++ "\x60") wanted) rest
    | .ok (.num (.float x), rest) =>
      faultAt (.unexpected ("floating point \x60" ++ numberText (.float x) ++ "\x60") wanted) rest
    | .ok (.str s, rest) => faultAt (.unexpected ("string " ++ Text.quoted s) wanted) rest
    | .ok (_, rest) => faultAt (.unexpected "value" wanted) rest

def text (cs : List Char) : Result String :=
  match skip cs with
  | '"' :: rest => (string rest).map fun (s, tail) => (String.ofList s, tail)
  | other => mismatch "a string" other

/-- One string or more, up to the closing bracket. -/
def texts : Nat → List Char → Result (List String)
  | 0, cs => faultAt .tooDeep cs
  | fuel + 1, cs =>
    match text cs with
    | .error f => .error f
    | .ok (item, rest) =>
      match skip rest with
      | [] => faultAt .listUnfinished []
      | ']' :: tail => .ok ([item], tail)
      | ',' :: tail =>
        match skip tail with
        | [] => faultAt .valueUnfinished []
        | ']' :: tail => faultOn .trailingComma (']' :: tail)
        | tail => (texts fuel tail).map fun (items, tail) => (item :: items, tail)
      | other => faultOn .listSeparator other

def textList (cs : List Char) : Result (List String) :=
  match skip cs with
  | '[' :: rest =>
    match skip rest with
    | [] => faultAt .listUnfinished []
    | ']' :: tail => .ok ([], tail)
    | rest => texts (rest.length + 1) rest
  | other => mismatch "a sequence" other

/-- A list of any values, or `null`. -/
def optionalItems (cs : List Char) : Result (Option (List Json)) :=
  match skip cs with
  | '[' :: rest =>
    match front ('[' :: rest) with
    | .ok (.arr items, tail) => .ok (some items, tail)
    | .ok (_, tail) => .ok (none, tail)
    | .error f => .error f
  | 'n' :: rest => (word ['u', 'l', 'l'] rest).map fun (_, tail) => (none, tail)
  | other => mismatch "a sequence" other

end Reader

def parseTexts (text : String) : Except Fault (List String) :=
  Reader.whole (Reader.textList text.toList)

/-- Read a whole text as a list, or `null`. -/
def parseItems? (text : String) : Except Fault (Option (List Json)) :=
  Reader.whole (Reader.optionalItems text.toList)

end Snowbank.Json
