import Snowbank.Pattern.Basic

/-!
# The Room a Pattern Takes

A pattern is worked off by an automaton, and there is a limit to the room, in
bytes, that this automaton may take. The room is an estimate from the form of
the pattern. A counted repetition takes the room of what it repeats that many
times over, so it is the one way for a short text to ask for a lot. A set that
reaches past the first 128 characters is spelled out in the bytes of its
members, and its room grows with the number of ranges that it has.
-/

namespace Snowbank

/-- The count of ranges that a table of runs gives to some labels. -/
def Text.spansOf (labels : List String) (runs : List Text.Run) : Nat :=
  (runs.foldl
    (fun (count, inside) r =>
      let now := labels.contains r.label
      (if now && !inside then count + 1 else count, now))
    (0, false)).1

/-- The count of ranges that a property has. -/
def Text.Property.spans : Text.Property → Nat
  | mixed categories plus minus =>
    Text.spansOf categories Text.categoryRuns + plus.length + minus.length
  | script code => Text.spansOf [code] Text.scriptRuns
  | any => 1
  | assigned => Text.spansOf ["Cn"] Text.categoryRuns

namespace CharSet

/-- The members are among the first 128 characters, as can be seen from the form of the set. -/
def isPlain : CharSet → Bool
  | none => true
  | range _ hi => hi.toNat < 0x80
  | union s t => s.isPlain && t.isPlain
  | inter s t => s.isPlain || t.isPlain
  | plainCase s => s.isPlain
  | anyCase s => s.isPlain && !(['k', 'K', 's', 'S'].any s.contains)
  | _ => false

/-- The count of ranges among the first 128 characters. -/
def plainSpans (s : CharSet) : Nat :=
  ((List.range 0x80).foldl
    (fun (count, inside) n =>
      let now := s.contains (Char.ofNat n)
      (if now && !inside then count + 1 else count, now))
    (0, false)).1

/-- What a set adds to the room of the place where it stands. -/
def weight : CharSet → Nat
  | none => 0
  | range _ hi => if hi.toNat < 0x80 then 8 else 100
  | decimal => 4600
  | word => 48300
  | blank => 620
  | having p => 62 * p.spans
  | complement decimal => 11600
  | complement word => 45200
  | complement blank => 1900
  | complement s => s.weight + 900
  | union s t => s.weight + t.weight
  | inter s t => max s.weight t.weight
  | anyCase s => 2 * s.weight
  | plainCase s => 2 * s.weight

/-- The room of one place that matches a set. -/
def room (s : CharSet) : Nat :=
  match s with
  | range lo hi => if lo == hi then 32 * lo.utf8Size else 64 + s.weight
  | _ => if s.isPlain then 64 + 8 * s.plainSpans else 64 + s.weight

end CharSet

namespace Pattern

/-- The pattern matches no text but the empty one. -/
def isEmptyOnly : Pattern → Bool
  | empty => true
  | one _ => false
  | place _ => true
  | group p => p.isEmptyOnly
  | seq p q => p.isEmptyOnly && q.isEmptyOnly
  | alt p q => p.isEmptyOnly && q.isEmptyOnly
  | rep p _ most => p.isEmptyOnly || most == some 0

/-- The room of a pattern. To repeat what matches the empty text alone takes
    no more than to match it once. -/
def room : Pattern → Nat
  | empty => 32
  | one s => s.room
  | place _ => 32
  | group p => p.room + 64
  | seq p q => p.room + q.room
  | alt p q => p.room + q.room + 36
  | rep p least most =>
    if p.isEmptyOnly then p.room + 72
    else
      match most with
      | none => max least 1 * p.room + 72
      | some 0 => 32
      | some m => least * p.room + (m - least) * (p.room + 40) + 32

/-- The limit to the room of a pattern: ten mebibytes. -/
def maxRoom : Nat := 0xA00000

end Pattern

end Snowbank
