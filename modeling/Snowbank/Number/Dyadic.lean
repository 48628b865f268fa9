/-!
# Doubles as Dyadic Fractions

A finite double is a whole number times a power of two, and every question
about its integral part has an exact answer in whole-number arithmetic.

Rounding to an integer, taking a remainder and asking whether there is a
fractional part are all done here on that decomposition, so none of them
depends on how a machine rounds.
-/

namespace Snowbank

/-- The number `± mantissa · 2 ^ exponent`. -/
structure Dyadic where
  negative : Bool
  mantissa : Nat
  exponent : Int
  deriving DecidableEq, Repr

namespace Dyadic

/-- The fraction a double stands for; infinities and NaN stand for none. -/
def ofFloat? (x : Float) : Option Dyadic :=
  let bits := x.toBits.toNat
  let negative := bits / 0x8000000000000000 == 1
  let exponent : Nat := bits / 0x10000000000000 % 2048
  let fraction : Nat := bits % 0x10000000000000
  if exponent == 2047 then none
  else if exponent == 0 then some ⟨negative, fraction, -1074⟩
  else some ⟨negative, fraction + 0x10000000000000, Int.ofNat exponent - 1075⟩

/-- The size of the integer part. -/
def whole (d : Dyadic) : Nat :=
  if 0 ≤ d.exponent then d.mantissa * Nat.pow 2 d.exponent.toNat
  else d.mantissa / Nat.pow 2 (-d.exponent).toNat

/-- No fractional part is left beside the integer part. -/
def isIntegral (d : Dyadic) : Bool :=
  0 ≤ d.exponent || d.mantissa % Nat.pow 2 (-d.exponent).toNat == 0

/-- The integer reached by rounding toward zero. -/
def trunc (d : Dyadic) : Int :=
  if d.negative then -(d.whole : Int) else d.whole

/-- The greatest integer that is not above the number. -/
def floor (d : Dyadic) : Int :=
  if d.negative && !d.isIntegral then d.trunc - 1 else d.trunc

/-- The least integer that is not below the number. -/
def ceil (d : Dyadic) : Int :=
  if !d.negative && !d.isIntegral then d.trunc + 1 else d.trunc

/-- The double `± mantissa · 2 ^ exponent`, for a mantissa below `2 ^ 53` and
    an exponent of `-1074` or more: the mantissa is moved up until it fills its
    field or the exponent is the least there is. -/
def toFloat (d : Dyadic) : Float :=
  let shift := min (52 - d.mantissa.log2) (d.exponent + 1074).toNat
  let mantissa := d.mantissa * Nat.pow 2 shift
  let exponent := d.exponent - shift
  let size :=
    if mantissa < 0x10000000000000 then mantissa
    else (exponent + 1075).toNat * 0x10000000000000 + (mantissa - 0x10000000000000)
  let sign := if d.negative then 0x8000000000000000 else 0
  Float.ofBits (UInt64.ofNat (sign + size))

/-- Half of `2 ^ drop` and more rounds up, an exact half to the even side. -/
def shiftRound (n drop : Nat) : Nat :=
  let q := n / Nat.pow 2 drop
  let twice := 2 * (n % Nat.pow 2 drop)
  if twice > Nat.pow 2 drop || (twice == Nat.pow 2 drop && q % 2 == 1) then q + 1 else q

/-- The nearest number with 24 significant bits and an exponent of `-149` or
    more; none where that reaches `2 ^ 128`. -/
def toSingle? (d : Dyadic) : Option Dyadic :=
  let drop := max ((d.mantissa.log2 : Int) - 23) (-149 - d.exponent)
  let rounded : Dyadic :=
    if drop ≤ 0 then d
    else ⟨d.negative, shiftRound d.mantissa drop.toNat, d.exponent + drop⟩
  if rounded.exponent + rounded.mantissa.log2 < 128 then some rounded else none

/-- What is left of `a` after taking out whole multiples of `b`, with the sign
    of `a`. Both are brought to one exponent first, so nothing is rounded. -/
def mod (a b : Dyadic) : Dyadic :=
  let exponent := min a.exponent b.exponent
  let m := a.mantissa * Nat.pow 2 (a.exponent - exponent).toNat
  let n := b.mantissa * Nat.pow 2 (b.exponent - exponent).toNat
  ⟨a.negative, m % n, exponent⟩

end Dyadic

/-- The double has no fractional part. -/
def isWhole (x : Float) : Bool :=
  match Dyadic.ofFloat? x with
  | some d => d.isIntegral
  | none => false

/-- The integer part of a finite double, zero for the others. -/
def wholePart (x : Float) : Int :=
  match Dyadic.ofFloat? x with
  | some d => d.trunc
  | none => 0

/-- The double rounded toward zero. -/
def roundToZero (x : Float) : Float :=
  match Dyadic.ofFloat? x with
  | some d => Float.ofInt d.trunc
  | none => x

/-- The double rounded down. -/
def roundDown (x : Float) : Float :=
  match Dyadic.ofFloat? x with
  | some d => Float.ofInt d.floor
  | none => x

/-- The remainder of a division that rounds toward zero, exact and with the
    sign of the dividend. An infinite divisor leaves the dividend as it is. -/
def remainder (x y : Float) : Float :=
  match Dyadic.ofFloat? x, Dyadic.ofFloat? y with
  | some a, some b => if b.mantissa == 0 then 0.0 / 0.0 else (a.mod b).toFloat
  | some _, none => if y.isNaN then y else x
  | none, _ => 0.0 / 0.0

/-- The integer part held to `[-2^63, 2^63)`; NaN counts as zero. -/
def toInt64 (x : Float) : Int :=
  match Dyadic.ofFloat? x with
  | some d => max (-0x8000000000000000) (min 0x7FFFFFFFFFFFFFFF d.trunc)
  | none =>
    if x.isNaN then 0
    else if x < 0 then -0x8000000000000000
    else 0x7FFFFFFFFFFFFFFF

/-- The number of steps of one unit that cover the double: its ceiling, held to `[0, 2^64)`. -/
def ceilCount (x : Float) : Nat :=
  match Dyadic.ofFloat? x with
  | some d => min 0xFFFFFFFFFFFFFFFF d.ceil.toNat
  | none => if x.isNaN || x < 0 then 0 else 0xFFFFFFFFFFFFFFFF

/-- The nearest single-precision number, ties to even; infinite beyond them. -/
def toSingle (x : Float) : Float :=
  match Dyadic.ofFloat? x with
  | some d =>
    match d.toSingle? with
    | some r => r.toFloat
    | none => if d.negative then -(1.0 / 0.0) else 1.0 / 0.0
  | none => x

end Snowbank
