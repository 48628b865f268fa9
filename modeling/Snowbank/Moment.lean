import Snowbank.Calendar
import Snowbank.ErrorKind
import Snowbank.Json.Printer
import Snowbank.Number.Decimal
import Snowbank.Text.Blank
import Snowbank.Text.Quoted

/-!
# Moments and Durations

A moment is a number of seconds since the beginning of 1970, a duration a
number of seconds. Both can be given as numbers or as text.

The text of a moment is tried in turn as a full timestamp with an offset, a
timestamp without one, and a date. `now` and `today` may be shifted by a
duration, as in `today-week` or `now+2hour`. The text of a duration is an
amount and a unit.

A timestamp with an offset has two digits in every field; the other forms
are laxer: a field may have one digit and blanks before it, a year may have a
sign, and the blank between date and time may be any number of blanks. A
second 60 is the last second of its minute and one more.
-/

namespace Snowbank

/-- Why a value is not a moment or a duration. -/
inductive MomentError where
  /-- An anchor is followed by something else than a signed duration. -/
  | badRelative (text : String)
  /-- An anchor is followed by a character of several bytes, where the sign
      should be; such a text is not processed at all. -/
  | brokenRelative (text : String)
  | notMoment (text : String)
  | notMomentValue (value : Json)
  | badDuration (text : String)
  | badUnit (unit : String)
  | notDurationValue (value : Json)

namespace MomentError

def kind : MomentError → ErrorKind
  | badRelative _ | notMoment _ | notMomentValue _ => .parse
  | brokenRelative _ => .abort
  | badDuration _ | badUnit _ | notDurationValue _ => .domain

/-- What is wrong, without the kind. -/
def detail : MomentError → String
  | badRelative text | brokenRelative text => "Bad relative date " ++ text
  | notMoment text => "Can not interpret " ++ Text.quoted text ++ " as a date"
  | notMomentValue value => "Can not interpret " ++ value.toText ++ " as a date"
  | badDuration text => "Bad duration " ++ Text.quoted text
  | badUnit unit => "Unsupported duration unit " ++ Text.quoted unit
  | notDurationValue value => "Can not interpret " ++ value.toText ++ " as a duration"

def message (e : MomentError) : String :=
  (if e.kind == .domain then "Domain error: " else "Parse error: ") ++ e.detail

end MomentError

namespace Duration

/-- The length of a unit in seconds. -/
def unit? (name : String) : Option Float :=
  match name with
  | "second" => some 1.0
  | "minute" => some 60.0
  | "hour" => some 3600.0
  | "day" => some 86400.0
  | "week" => some 604800.0
  | _ => none

/-- A character of the amount in front of the unit. -/
def isAmount (c : Char) : Bool :=
  c.isDigit || c == '.'

/-- The seconds of a duration such as `day`, `2hours` or `1.5 week`. -/
def parse (text : String) : Except MomentError Float := do
  let text := Text.trim text
  let amount := text.toList.takeWhile isAmount
  let rest := Text.trimEnd (Text.trimStart (text.toList.dropWhile isAmount))
  let name := String.ofList (rest.reverse.dropWhile (· == 's')).reverse
  let count ←
    if amount.isEmpty then pure 1.0
    else
      match readFloat? (String.ofList amount) with
      | some x => pure x
      | none => throw (.badDuration text)
  match unit? name with
  | some seconds => return count * seconds
  | none => throw (.badUnit name)

/-- A duration given as a number of seconds or as text. -/
def ofJson : Json → Except MomentError Float
  | .num n => return n.toFloat
  | .str text => parse text
  | value => throw (.notDurationValue value)

end Duration

namespace Moment

/-- Between `least` and `most` digits at the front: their value and the rest. -/
def digits? (least most : Nat) (cs : List Char) : Option (Nat × List Char) :=
  let run := (cs.take most).takeWhile Char.isDigit
  if run.length < least then none
  else some (Decimal.digitsValue run, cs.drop run.length)

/-- One given character at the front. -/
def char? (c : Char) : List Char → Option (List Char)
  | [] => none
  | d :: rest => if c == d then some rest else none

/-- One of the fields after a year: up to two digits, and blanks before them. -/
def field? (cs : List Char) : Option (Nat × List Char) :=
  digits? 1 2 (Text.trimStart cs)

/-- A year: up to four digits, or a sign and any number of them. -/
def year? (cs : List Char) : Option (Int × List Char) :=
  match Text.trimStart cs with
  | '-' :: rest => (digits? 1 rest.length rest).map fun (n, tail) => (-(n : Int), tail)
  | '+' :: rest => (digits? 1 rest.length rest).map fun (n, tail) => ((n : Int), tail)
  | rest => (digits? 1 4 rest).map fun (n, tail) => ((n : Int), tail)

/-- The microseconds after the point, cut and not rounded; digits beyond the ninth are skipped. -/
def fraction? : List Char → Option (Nat × List Char)
  | '.' :: rest =>
    let run := rest.takeWhile Char.isDigit
    if run.isEmpty then none
    else
      let nine := run.take 9
      let nanos := Decimal.digitsValue nine * Nat.pow 10 (9 - nine.length)
      some (nanos / 1000, rest.drop run.length)
  | rest => some (0, rest)

/-- The moment of a date and time, if both exist: whole seconds and microseconds. -/
def assemble? (year : Int) (month day hour minute second micros : Nat) (offset : Int) :
    Option (Int × Nat) :=
  if Calendar.isDate year month day && hour ≤ 23 && minute ≤ 59 && second ≤ 60 then
    let leap := second == 60
    let seconds := Calendar.dayNumber year month day * 86400 + hour * 3600 + minute * 60 +
      (if leap then 59 else second : Nat)
    some (seconds - offset, if leap then micros + 1000000 else micros)
  else none

def offsetSign? : List Char → Option (Bool × List Char)
  | '+' :: rest => some (false, rest)
  | '-' :: rest => some (true, rest)
  | '−' :: rest => some (true, rest)
  | _ => none

/-- The offset at the end of a timestamp, in seconds. -/
def offset? : List Char → Option (Int × List Char)
  | 'Z' :: rest => some (0, rest)
  | 'z' :: rest => some (0, rest)
  | cs => do
    let (negative, cs) ← offsetSign? cs
    let (hours, cs) ← digits? 2 2 cs
    let cs ← char? ':' cs
    let (minutes, cs) ← digits? 2 2 cs
    if hours ≤ 23 && minutes ≤ 59 then
      let size : Int := hours * 3600 + minutes * 60
      some (if negative then -size else size, cs)
    else none

/-- A timestamp with an offset, every field at full width. -/
def stamp? (cs : List Char) : Option (Int × Nat) := do
  let (year, cs) ← digits? 4 4 cs
  let cs ← char? '-' cs
  let (month, cs) ← digits? 2 2 cs
  let cs ← char? '-' cs
  let (day, cs) ← digits? 2 2 cs
  let cs ←
    match cs with
    | 'T' :: rest | 't' :: rest | ' ' :: rest => some rest
    | _ => none
  let (hour, cs) ← digits? 2 2 cs
  let cs ← char? ':' cs
  let (minute, cs) ← digits? 2 2 cs
  let cs ← char? ':' cs
  let (second, cs) ← digits? 2 2 cs
  let (micros, cs) ← fraction? cs
  let (offset, cs) ← offset? cs
  if cs.isEmpty then assemble? year month day hour minute second micros offset else none

/-- A date at the front of a text. -/
def date? (cs : List Char) : Option (Int × Nat × Nat × List Char) := do
  let (year, cs) ← year? cs
  let cs ← char? '-' cs
  let (month, cs) ← field? cs
  let cs ← char? '-' cs
  let (day, cs) ← field? cs
  return (year, month, day, cs)

/-- A date and a time without an offset. -/
def local? (cs : List Char) : Option (Int × Nat) := do
  let (year, month, day, cs) ← date? cs
  let cs :=
    match cs with
    | 'T' :: rest => rest
    | rest => Text.trimStart rest
  let (hour, cs) ← field? cs
  let cs ← char? ':' cs
  let (minute, cs) ← field? cs
  let cs ← char? ':' cs
  let (second, cs) ← field? cs
  let (micros, cs) ← fraction? cs
  if cs.isEmpty then assemble? year month day hour minute second micros 0 else none

/-- A date alone stands for its first second. -/
def day? (cs : List Char) : Option (Int × Nat) := do
  let (year, month, day, cs) ← date? cs
  if cs.isEmpty then assemble? year month day 0 0 0 0 0 else none

def absolute? (text : String) : Option Float :=
  let cs := text.toList
  ((stamp? cs).orElse fun _ => (local? cs).orElse fun _ => day? cs).map fun (seconds, micros) =>
    Float.ofInt seconds + Float.ofNat micros / 1000000.0

/-- The beginning of the day of a moment. -/
def startOfDay (now : Float) : Float :=
  roundDown (roundDown now / 86400.0) * 86400.0

/-- What follows an anchor, if the text begins with it. -/
def after? (anchor : String) (text : String) : Option (List Char) :=
  if anchor.toList.isPrefixOf text.toList then some (text.toList.drop anchor.length) else none

/-- An anchor shifted by the signed duration that follows it. -/
def shifted (text : String) (anchor : Float) (rest : List Char) : Except MomentError Float :=
  match Text.trimEnd (Text.trimStart rest) with
  | [] => return anchor
  | '+' :: amount => return anchor + (← Duration.parse (String.ofList amount))
  | '-' :: amount => return anchor - (← Duration.parse (String.ofList amount))
  | c :: _ =>
    if c.toNat < 0x80 then throw (.badRelative text) else throw (.brokenRelative text)

/-- The moment a text names, `now` being the present one. -/
def parse (now : Float) (text : String) : Except MomentError Float :=
  let text := Text.trim text
  match after? "now" text, after? "today" text with
  | some rest, _ => shifted text now rest
  | none, some rest => shifted text (startOfDay now) rest
  | none, none =>
    match absolute? text with
    | some x => return x
    | none => throw (.notMoment text)

/-- A moment given as a number of seconds or as text. -/
def ofJson (now : Float) : Json → Except MomentError Float
  | .num n => return n.toFloat
  | .str text => parse now text
  | value => throw (.notMomentValue value)

end Moment

end Snowbank
