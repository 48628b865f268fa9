import Snowbank.Json.Basic
import Snowbank.Json.Fault

/-!
# Reading JSON Text

A text is one value with blanks around it. Arrays and objects nest at most
127 deep. Of two fields with one key the later is kept.

The digits of a fraction are gathered in 64 bits, those that no longer fit
only move the point, and the result is scaled by a power of ten once. A
number that comes out infinite is refused.
-/

namespace Snowbank.Json

namespace Reader

/-- A part of a text that was read, and the rest. -/
abbrev Result (α : Type) := Except Fault (α × List Char)

/-- The text is at fault here. -/
def faultAt {α : Type} (kind : FaultKind) (rest : List Char) : Result α :=
  .error ⟨kind, rest, 0⟩

/-- The next byte of the text is at fault. -/
def faultOn {α : Type} (kind : FaultKind) (rest : List Char) : Result α :=
  .error ⟨kind, rest, if rest.isEmpty then 0 else 1⟩

/-- Blanks between tokens. -/
def isSpace (c : Char) : Bool :=
  c == ' ' || c == '\n' || c == '\t' || c == '\r'

/-- Drop blanks. -/
def skip (cs : List Char) : List Char :=
  cs.dropWhile isSpace

/-- The value of a digit. -/
def digit (c : Char) : Nat :=
  c.toNat - '0'.toNat

/-- Gather digits while they fit 64 bits: the number so far and the digits that were left over. -/
def gather : Nat → List Char → Nat × List Char
  | n, [] => (n, [])
  | n, c :: rest =>
    let next := n * 10 + digit c
    if next < 0x10000000000000000 then gather next rest else (n, c :: rest)

/-- A significand scaled by a power of ten, with one multiplication or
    division where the power is a double. Infinite results are refused. -/
def scale (significand : Nat) (exponent : Int) : Option Float :=
  let x := Float.ofNat significand
  if 308 < exponent then
    if significand == 0 then some x else none
  else if 0 ≤ exponent then
    let y := x * Float.ofScientific 1 false exponent.toNat
    if y.isFinite then some y else none
  else if -308 ≤ exponent then
    some (x / Float.ofScientific 1 false (-exponent).toNat)
  else if -616 ≤ exponent then
    some (x / 1e308 / Float.ofScientific 1 false (-exponent - 308).toNat)
  else some 0.0

/-- The digits of an exponent that no longer fits 31 bits begin to overflow
    before the digits returned. -/
def overflow? : Nat → List Char → Option (List Char)
  | _, [] => none
  | n, c :: rest =>
    if !c.isDigit then none
    else
      let next := n * 10 + digit c
      if next < 0x80000000 then overflow? next rest else some rest

/-- The exponent after `e`: its value, where it overflows, and the rest. -/
def exponent (cs : List Char) : Result (Int × Option (List Char)) :=
  let (negative, cs) :=
    match cs with
    | '+' :: rest => (false, rest)
    | '-' :: rest => (true, rest)
    | _ => (false, cs)
  let digits := cs.takeWhile Char.isDigit
  if cs.isEmpty then faultAt .valueUnfinished []
  else if digits.isEmpty then faultOn .badNumber cs
  else
    let n := digits.foldl (fun n c => n * 10 + digit c) 0
    .ok ((if negative then -(n : Int) else n, overflow? 0 cs), cs.dropWhile Char.isDigit)

/-- A significand scaled by a power of ten, at a place of the text. -/
def scaled (significand : Nat) (exponent : Int) (place tail : List Char) : Result (Sum Nat Float) :=
  match scale significand exponent with
  | some x => .ok (.inr x, tail)
  | none => faultAt .numberRange place

/-- What may follow the digits of a number: an exponent. -/
def finish (significand : Nat) (shift : Int) (isFraction : Bool) (tail : List Char) :
    Result (Sum Nat Float) :=
  match tail with
  | c :: more =>
    if c == 'e' || c == 'E' then
      match exponent more with
      | .error f => .error f
      | .ok ((e, spill), tail) => scaled significand (shift + e) (spill.getD tail) tail
    else if isFraction then scaled significand shift tail tail
    else .ok (.inl significand, tail)
  | [] => if isFraction then scaled significand shift [] [] else .ok (.inl significand, [])

/-- A number at the front of the text, without its sign: the integer if it is
    one that fits, and otherwise a fraction. -/
def unsigned (cs : List Char) : Result (Sum Nat Float) :=
  let whole := cs.takeWhile Char.isDigit
  let rest := cs.dropWhile Char.isDigit
  if cs.isEmpty then faultAt .valueUnfinished []
  else if whole.isEmpty then faultOn .badNumber cs
  else if whole.length > 1 && whole.head? == some '0' then faultOn .badNumber cs.tail
  else
    let (n, spill) := gather 0 whole
    match rest with
    | '.' :: more =>
      let fraction := more.takeWhile Char.isDigit
      let tail := more.dropWhile Char.isDigit
      if more.isEmpty then faultAt .valueUnfinished []
      else if fraction.isEmpty then faultOn .badNumber more
      else
        let (m, left) := gather n fraction
        finish m ((spill.length : Int) - (fraction.length - left.length : Nat)) true tail
    | _ => finish n spill.length (!spill.isEmpty) rest

/-- A number at the front of the text. A negative integer that does not fit
    64 bits, and `-0`, are fractions. -/
def number (cs : List Char) : Result Number :=
  match cs with
  | '-' :: rest =>
    match unsigned rest with
    | .ok (.inl n, tail) =>
      if n == 0 || 0x8000000000000000 < n then .ok (.float (-(Float.ofNat n)), tail)
      else .ok (.int (-(n : Int)), tail)
    | .ok (.inr x, tail) => .ok (.float (-x), tail)
    | .error f => .error f
  | _ =>
    match unsigned cs with
    | .ok (.inl n, tail) => .ok (.int n, tail)
    | .ok (.inr x, tail) => .ok (.float x, tail)
    | .error f => .error f

/-- The rest of a word. -/
def word : List Char → List Char → Result Unit
  | [], cs => .ok ((), cs)
  | _ :: _, [] => faultAt .valueUnfinished []
  | w :: ws, c :: rest => if c == w then word ws rest else faultOn .badWord (c :: rest)

/-- The value of a hexadecimal digit. -/
def hexDigit? (c : Char) : Option Nat :=
  if c.isDigit then some (c.toNat - '0'.toNat)
  else if 'a' ≤ c && c ≤ 'f' then some (c.toNat - 'a'.toNat + 10)
  else if 'A' ≤ c && c ≤ 'F' then some (c.toNat - 'A'.toNat + 10)
  else none

/-- The value of four hexadecimal digits. -/
def hex4? (a b c d : Char) : Option Nat := do
  let a ← hexDigit? a
  let b ← hexDigit? b
  let c ← hexDigit? c
  let d ← hexDigit? d
  return ((a * 16 + b) * 16 + c) * 16 + d

/-- The character of a one-letter escape. -/
def shortEscape? : Char → Option Char
  | '"' => some '"'
  | '\\' => some '\\'
  | '/' => some '/'
  | 'b' => some '\x08'
  | 'f' => some '\x0c'
  | 'n' => some '\n'
  | 'r' => some '\r'
  | 't' => some '\t'
  | _ => none

/-- The fault of an escape that does not have four hexadecimal digits. -/
def badHex {α : Type} (cs : List Char) : Result α :=
  if byteCount cs < 4 then faultAt .stringUnfinished [] else .error ⟨.badEscape, cs, 4⟩

/-- The characters of a string up to its closing quote, and the rest. Two escapes that form a
    surrogate pair name one character, and a surrogate alone names none. -/
def string : List Char → Result (List Char)
  | [] => faultAt .stringUnfinished []
  | '"' :: rest => .ok ([], rest)
  | '\\' :: 'u' :: a :: b :: c :: d :: rest =>
    match hex4? a b c d with
    | none => badHex (a :: b :: c :: d :: rest)
    | some n =>
      if 0xD800 ≤ n && n < 0xDC00 then
        match rest with
        | '\\' :: 'u' :: a :: b :: c :: d :: rest =>
          match hex4? a b c d with
          | none => badHex (a :: b :: c :: d :: rest)
          | some m =>
            if 0xDC00 ≤ m && m < 0xE000 then
              (string rest).map fun (cs, tail) =>
                (Char.ofNat (0x10000 + (n - 0xD800) * 0x400 + (m - 0xDC00)) :: cs, tail)
            else faultAt .loneSurrogate rest
        | '\\' :: 'u' :: few => badHex few
        | ['\\'] | [] => faultAt .stringUnfinished []
        | '\\' :: other => faultOn .halfSurrogate other
        | other => faultOn .halfSurrogate other
      else if 0xDC00 ≤ n && n < 0xE000 then faultAt .loneSurrogate rest
      else (string rest).map fun (cs, tail) => (Char.ofNat n :: cs, tail)
  | '\\' :: 'u' :: few => badHex few
  | ['\\'] => faultAt .stringUnfinished []
  | '\\' :: c :: rest =>
    match shortEscape? c with
    | none => faultOn .badEscape (c :: rest)
    | some e => (string rest).map fun (cs, tail) => (e :: cs, tail)
  | c :: rest =>
    if c.toNat < 0x20 then faultOn .controlCharacter (c :: rest)
    else (string rest).map fun (cs, tail) => (c :: cs, tail)

mutual

/-- A value at the front of the text, blanks before it skipped. -/
def value : Nat → Nat → List Char → Result Json
  | 0, _, cs => faultAt .tooDeep cs
  | fuel + 1, depth, cs =>
    match skip cs with
    | [] => faultAt .valueUnfinished []
    | 'n' :: rest => (word ['u', 'l', 'l'] rest).map fun (_, tail) => (.null, tail)
    | 't' :: rest => (word ['r', 'u', 'e'] rest).map fun (_, tail) => (.bool true, tail)
    | 'f' :: rest => (word ['a', 'l', 's', 'e'] rest).map fun (_, tail) => (.bool false, tail)
    | '"' :: rest => (string rest).map fun (s, tail) => (.str (String.ofList s), tail)
    | '[' :: rest =>
      if depth ≤ 1 then faultOn .tooDeep ('[' :: rest)
      else
        match skip rest with
        | [] => faultAt .listUnfinished []
        | ']' :: tail => .ok (.arr [], tail)
        | rest => (items fuel (depth - 1) rest).map fun (items, tail) => (.arr items, tail)
    | '\x7b' :: rest =>
      if depth ≤ 1 then faultOn .tooDeep ('\x7b' :: rest)
      else
        match skip rest with
        | [] => faultAt .objectUnfinished []
        | '\x7d' :: tail => .ok (.obj [], tail)
        | rest => (fields fuel (depth - 1) rest).map fun (fields, tail) => (mkObj fields, tail)
    | c :: rest =>
      if c.isDigit || c == '-' then (number (c :: rest)).map fun (n, tail) => (.num n, tail)
      else faultOn .valueMissing (c :: rest)

/-- One item or more, up to the closing bracket. -/
def items : Nat → Nat → List Char → Result (List Json)
  | 0, _, cs => faultAt .tooDeep cs
  | fuel + 1, depth, cs =>
    match value fuel depth cs with
    | .error f => .error f
    | .ok (item, rest) =>
      match skip rest with
      | [] => faultAt .listUnfinished []
      | ']' :: tail => .ok ([item], tail)
      | ',' :: tail =>
        match skip tail with
        | ']' :: tail => faultOn .trailingComma (']' :: tail)
        | tail => (items fuel depth tail).map fun (items, tail) => (item :: items, tail)
      | other => faultOn .listSeparator other

/-- One field or more, up to the closing brace. -/
def fields : Nat → Nat → List Char → Result Fields
  | 0, _, cs => faultAt .tooDeep cs
  | fuel + 1, depth, cs =>
    match cs with
    | '"' :: rest =>
      match string rest with
      | .error f => .error f
      | .ok (key, rest) =>
        match skip rest with
        | ':' :: rest =>
          match value fuel depth rest with
          | .error f => .error f
          | .ok (value, rest) =>
            let field := (String.ofList key, value)
            match skip rest with
            | [] => faultAt .objectUnfinished []
            | '\x7d' :: tail => .ok ([field], tail)
            | ',' :: tail =>
              match skip tail with
              | [] => faultAt .valueUnfinished []
              | '\x7d' :: tail => faultOn .trailingComma ('\x7d' :: tail)
              | tail => (fields fuel depth tail).map fun (fields, tail) => (field :: fields, tail)
            | other => faultOn .objectSeparator other
        | [] => faultAt .objectUnfinished []
        | other => faultOn .colonMissing other
    | other => faultOn .keyMissing other

end

/-- A value at the front of a text, at most 127 arrays and objects deep. Every
    step of the reading takes a character off the text before the step after
    next, so twice its length is enough fuel. -/
def front (cs : List Char) : Result Json := value (2 * cs.length + 2) 128 cs

/-- Only blanks may be left. -/
def whole {α : Type} : Result α → Except Fault α
  | .error f => .error f
  | .ok (value, rest) =>
    match skip rest with
    | [] => .ok value
    | other => .error ⟨.trailingText, other, 1⟩

end Reader

/-- Read a whole text. -/
def parse (text : String) : Except Fault Json := Reader.whole (Reader.front text.toList)

/-- Read a whole text, if it is one. -/
def parse? (text : String) : Option Json := (parse text).toOption

end Snowbank.Json
