import Snowbank.Pattern.CharSet

/-!
# Patterns

Regular patterns and the texts they match.

Matching works on sets of positions, as lists without repetition: a pattern
sends the positions where a match may begin to those where it can end.
Repeating a pattern repeats that step. A step that moves takes the position
closer to the end of the text, so among more steps than the text has
characters there is one that stays in place, and taking that one more often or
less often reaches nothing new. No repetition therefore has to be followed for
longer than that.
-/

namespace Snowbank

namespace Pattern

/-- A condition on the characters before and after a position, as to whether
    they are word characters. -/
inductive WordEdge where
  /-- One of them is, the other is not. -/
  | between
  /-- Both are or both are not. -/
  | inside
  /-- The one after is, the one before is not. -/
  | opening
  /-- The one before is, the one after is not. -/
  | closing
  /-- The one before is not. -/
  | clearBefore
  /-- The one after is not. -/
  | clearAfter

/-- A condition on a position in a text. -/
inductive Place where
  | textStart
  | textEnd
  /-- The beginning of a line. Lines end at a line feed or, if `returns`, also
      at a carriage return with or without a line feed after it. -/
  | lineStart (returns : Bool)
  /-- The end of a line, where lines end in the same way. -/
  | lineEnd (returns : Bool)
  /-- A condition on word characters, which are those of every script or, if
      `plain`, those among the first 128 characters. -/
  | word (edge : WordEdge) (plain : Bool)

end Pattern

/-- A regular pattern. -/
inductive Pattern where
  | empty
  | one (set : CharSet)
  | place (p : Pattern.Place)
  /-- A pattern in a group that is counted. It matches what the pattern in it does. -/
  | group (p : Pattern)
  | seq (p q : Pattern)
  | alt (p q : Pattern)
  /-- At least `least` and at most `most` matches in a row. -/
  | rep (p : Pattern) (least : Nat) (most : Option Nat)

namespace Pattern

/-- The condition holds for the two characters around a position, given
    whether each of them is a word character. -/
def WordEdge.holds (before after : Bool) : WordEdge → Bool
  | between => before != after
  | inside => before == after
  | opening => !before && after
  | closing => before && !after
  | clearBefore => !before
  | clearAfter => !after

/-- The character before a position. -/
def charBefore? (text : Array Char) : Nat → Option Char
  | 0 => none
  | i + 1 => text[i]?

/-- The condition holds at a position of a text. -/
def Place.holds (text : Array Char) (i : Nat) : Place → Bool
  | textStart => i == 0
  | textEnd => i == text.size
  | lineStart returns =>
    i == 0 || charBefore? text i == some '\n' ||
      (returns && charBefore? text i == some '\r' && text[i]? != some '\n')
  | lineEnd returns =>
    i == text.size ||
      (text[i]? == some '\n' && !(returns && charBefore? text i == some '\r')) ||
      (returns && text[i]? == some '\r')
  | word edge plain =>
    let isWord (c : Char) : Bool := if plain then Text.isPlainWord c else Text.isWord c
    edge.holds ((charBefore? text i).any isWord) ((text[i]?).any isWord)

/-- The positions of two lists, without those of the second that are in the first. -/
def join (s t : List Nat) : List Nat :=
  s ++ t.filter fun i => !s.contains i

/-- Take a step `n` times. -/
def iterate (step : List Nat → List Nat) : Nat → List Nat → List Nat
  | 0, positions => positions
  | n + 1, positions => if positions.isEmpty then [] else iterate step n (step positions)

/-- Take a step up to `n` times, keeping the positions passed. Only positions
    that are new are stepped on from. -/
def spread (step : List Nat → List Nat) : Nat → (seen new : List Nat) → List Nat
  | 0, seen, _ => seen
  | n + 1, seen, new =>
    let next := (step new).filter fun i => !seen.contains i
    if next.isEmpty then seen else spread step n (seen ++ next) next

/-- The positions at which a match that begins at one of the given positions can end. -/
def ends (text : Array Char) : Pattern → List Nat → List Nat
  | empty, positions => positions
  | one set, positions =>
    (positions.filter fun i => (text[i]?).any set.contains).map (· + 1)
  | place p, positions => positions.filter fun i => p.holds text i
  | group p, positions => p.ends text positions
  | seq p q, positions => q.ends text (p.ends text positions)
  | alt p q, positions => join (p.ends text positions) (q.ends text positions)
  | rep p least most, positions =>
    let start := iterate (p.ends text) (min least (text.size + 1)) positions
    let more :=
      match most with
      | none => text.size + 1
      | some m => min (m - least) (text.size + 1)
    spread (p.ends text) more start start

/-- Some part of the text matches. -/
def occursIn (p : Pattern) (text : String) : Bool :=
  let cs := text.toList.toArray
  !(p.ends cs (List.range (cs.size + 1))).isEmpty

end Pattern

end Snowbank
