import Snowbank.Number.Dyadic

/-!
# Shortest Decimal Digits

The fewest decimal digits that still name a double.

Between a double and its neighbours lie two midpoints, and every real number
between them rounds to the double; an end counts if the mantissa is even. For
one digit, then two, and so on, the two multiples of the power of ten next to
the double are tried, and the first of them that lies between the midpoints
is taken. Of two that do, the nearer one is taken, and the upper one when
they are equally near. Everything is compared as whole numbers.
-/

namespace Snowbank

/-- The decimal number `digits · 10 ^ exponent`. -/
structure Digits where
  digits : Nat
  exponent : Int
  deriving DecidableEq, Repr

namespace Shortest

/-- Compare `a · 10 ^ k` with `b · 2 ^ q`. -/
def compareScaled (a : Nat) (k : Int) (b : Nat) (q : Int) : Ordering :=
  compare (a * Nat.pow 10 k.toNat * Nat.pow 2 (-q).toNat)
    (b * Nat.pow 2 q.toNat * Nat.pow 10 (-k).toNat)

/-- The integer part of `m · 2 ^ q / 10 ^ k`. -/
def quotient (m : Nat) (q k : Int) : Nat :=
  m * Nat.pow 2 q.toNat * Nat.pow 10 (-k).toNat / (Nat.pow 2 (-q).toNat * Nat.pow 10 k.toNat)

/-- The exponent of the leading decimal digit of `m · 2 ^ q`, for `m` not
    zero. The estimate from the bit length is at most one off. -/
def magnitude (m : Nat) (q : Int) : Int :=
  let estimate := ((m.log2 : Int) + q) * 30103 / 100000
  if compareScaled 1 (estimate + 1) m q != .gt then estimate + 1
  else if compareScaled 1 estimate m q == .gt then estimate - 1
  else estimate

/-- A candidate `c · 10 ^ k` rounds to `m · 2 ^ q`. The lower neighbour of a
    power of two is half as far away as the upper one. -/
def roundsTo (m : Nat) (q : Int) (c : Nat) (k : Int) : Bool :=
  let below := if m == 0x10000000000000 && q > -1074 then 4 * m - 1 else 4 * m - 2
  let above := 4 * m + 2
  let atEnd (o : Ordering) : Bool := o == .eq && m % 2 == 0
  let lower := compareScaled c k below (q - 2)
  let upper := compareScaled c k above (q - 2)
  (lower == .gt || atEnd lower) && (upper == .lt || atEnd upper)

/-- The better of the two multiples of `10 ^ k` next to `m · 2 ^ q` that round
    to it, if any does. -/
def onGrid (m : Nat) (q k : Int) : Option Nat :=
  let c := quotient m q k
  match roundsTo m q c k, roundsTo m q (c + 1) k with
  | true, true =>
    -- The upper one is taken when the double lies at or above the middle.
    if compareScaled (2 * c + 1) k (2 * m) q == .gt then some c else some (c + 1)
  | true, false => some c
  | false, true => some (c + 1)
  | false, false => none

/-- Try more and more digits, up to the seventeen that always suffice. -/
def search (m : Nat) (q top : Int) : Nat → Nat → Digits
  | 0, count => ⟨quotient m q (top + 1 - count), top + 1 - count⟩
  | left + 1, count =>
    let k := top + 1 - count
    match onGrid m q k with
    | some c => ⟨c, k⟩
    | none => search m q top left (count + 1)

/-- Move the zeros at the end of the digits into the exponent. -/
def dropZeros : Nat → Digits → Digits
  | 0, d => d
  | left + 1, d =>
    if d.digits != 0 && d.digits % 10 == 0 then
      dropZeros left ⟨d.digits / 10, d.exponent + 1⟩
    else d

end Shortest

/-- The shortest digits that name the double `m · 2 ^ q`, with no zero at their end. -/
def shortest (d : Dyadic) : Digits :=
  if d.mantissa == 0 then ⟨0, 0⟩
  else
    let top := Shortest.magnitude d.mantissa d.exponent
    Shortest.dropZeros 20 (Shortest.search d.mantissa d.exponent top 17 1)

end Snowbank
