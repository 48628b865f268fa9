/-!
# Reading Decimal Numbers

The double that a decimal text names, rounded once and to the nearest.

A text is an optional sign, digits with at most one point among them and at
least one digit, and an optional exponent. The words `inf`, `infinity` and
`nan` are numbers too, in any case. Nothing else is, and blanks are not
skipped.
-/

namespace Snowbank

/-- The number `± digits · 10 ^ exponent`. -/
structure Decimal where
  negative : Bool
  digits : Nat
  exponent : Int
  deriving DecidableEq, Repr

namespace Decimal

/-- The value of a run of digits. -/
def digitsValue (cs : List Char) : Nat :=
  cs.foldl (fun n c => n * 10 + (c.toNat - '0'.toNat)) 0

/-- A sign in front, if there is one, and what follows it. -/
def splitSign : List Char → Bool × List Char
  | '-' :: rest => (true, rest)
  | '+' :: rest => (false, rest)
  | rest => (false, rest)

/-- The exponent at the end of a number: nothing, or `e` and a number. -/
def readExponent? : List Char → Option Int
  | [] => some 0
  | c :: rest =>
    if c == 'e' || c == 'E' then
      let (negative, digits) := splitSign rest
      if digits.isEmpty || !digits.all Char.isDigit then none
      else
        let n := digitsValue digits
        some (if negative then -(n : Int) else n)
    else none

/-- A number without its sign. -/
def readUnsigned? (cs : List Char) : Option (Nat × Int) :=
  let whole := cs.takeWhile Char.isDigit
  let rest := cs.dropWhile Char.isDigit
  let (fraction, tail) :=
    match rest with
    | '.' :: more => (more.takeWhile Char.isDigit, more.dropWhile Char.isDigit)
    | _ => ([], rest)
  if whole.isEmpty && fraction.isEmpty then none
  else
    (readExponent? tail).map fun e =>
      (digitsValue (whole ++ fraction), e - (fraction.length : Int))

/-- A number with its sign. -/
def ofChars? (cs : List Char) : Option Decimal :=
  let (negative, rest) := splitSign cs
  (readUnsigned? rest).map fun (digits, exponent) => ⟨negative, digits, exponent⟩

/-- The nearest double. The magnitude is looked at first: beyond `10 ^ 310`
    every number rounds to infinity and below `10 ^ (-330)` to zero. -/
def toFloat (d : Decimal) : Float :=
  let top := ((toString d.digits).length : Int) + d.exponent
  let size : Float :=
    if d.digits == 0 || top < -330 then 0.0
    else if top > 310 then 1.0 / 0.0
    else if 0 ≤ d.exponent then Float.ofScientific d.digits false d.exponent.toNat
    else Float.ofScientific d.digits true (-d.exponent).toNat
  if d.negative then -size else size

end Decimal

/-- The double a text names. -/
def readFloat? (text : String) : Option Float :=
  match Decimal.ofChars? text.toList with
  | some d => some d.toFloat
  | none =>
    let (negative, rest) := Decimal.splitSign text.toList
    let word := String.ofList (rest.map Char.toLower)
    let signed (x : Float) : Float := if negative then -x else x
    if word == "inf" || word == "infinity" then some (signed (1.0 / 0.0))
    else if word == "nan" then some (signed (0.0 / 0.0))
    else none

end Snowbank
