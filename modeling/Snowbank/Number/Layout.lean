import Snowbank.Number.Shortest

/-!
# Number Text

How a double is written: the digits are always the shortest ones, and a
layout says when they are written out in place and what an exponent looks
like.
-/

namespace Snowbank

/-- The decisions left once the digits of a double are known. -/
structure Layout where
  /-- Exponents of the leading digit at which digits are written in place. -/
  inPlace : Int → Bool
  /-- A whole number written in place ends in `.0`. -/
  pointZero : Bool
  /-- An exponent that is not negative carries a plus sign. -/
  plusSign : Bool

namespace Layout

def zeros (n : Nat) : String :=
  String.ofList (List.replicate n '0')

/-- The digits `digits · 10 ^ exponent` written in place. -/
def positional (layout : Layout) (d : Digits) : String :=
  let text := toString d.digits
  if 0 ≤ d.exponent then
    text ++ zeros d.exponent.toNat ++ (if layout.pointZero then ".0" else "")
  else
    let places := (-d.exponent).toNat
    let padded := (zeros (places + 1 - text.length) ++ text).toList
    let cut := padded.length - places
    String.ofList (padded.take cut) ++ "." ++ String.ofList (padded.drop cut)

/-- The digits with one of them before the point, and an exponent. -/
def scientific (layout : Layout) (d : Digits) : String :=
  let text := (toString d.digits).toList
  let exponent := d.exponent + (text.length - 1 : Nat)
  let lead := String.ofList (text.take 1)
  let rest := String.ofList (text.drop 1)
  let sign := if exponent < 0 then "-" else if layout.plusSign then "+" else ""
  lead ++ (if rest.isEmpty then "" else "." ++ rest) ++ "e" ++ sign ++ toString exponent.natAbs

/-- The text of a finite double in a layout; the others have none. -/
def render? (layout : Layout) (x : Float) : Option String :=
  (Dyadic.ofFloat? x).map fun d =>
    let digits := shortest d
    let lead := digits.exponent + ((toString digits.digits).length - 1 : Nat)
    let text :=
      if d.mantissa == 0 || layout.inPlace lead then layout.positional digits
      else layout.scientific digits
    if d.negative then "-" ++ text else text

/-- The text of a double in a layout. -/
def render (layout : Layout) (x : Float) : String :=
  match layout.render? x with
  | some text => text
  | none => if x.isNaN then "NaN" else if x < 0 then "-inf" else "inf"

/-- Messages write every digit in place and no idle decimal. -/
def plain : Layout := ⟨fun _ => true, false, false⟩

end Layout

end Snowbank
