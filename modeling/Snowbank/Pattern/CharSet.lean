import Snowbank.Text.Blank
import Snowbank.Text.CaseFold
import Snowbank.Text.WordChar

/-!
# Character Sets

The sets of characters that one place of a pattern can match.
-/

namespace Snowbank

/-- A set of characters. -/
inductive CharSet where
  | none
  | range (lo hi : Char)
  | decimal
  | word
  | blank
  | having (p : Text.Property)
  | complement (s : CharSet)
  | union (s t : CharSet)
  | inter (s t : CharSet)
  /-- The characters with a case variant in the set. -/
  | anyCase (s : CharSet)
  /-- The same, where only the first 128 characters have case variants. -/
  | plainCase (s : CharSet)

namespace CharSet

/-- The set with one member. -/
def single (c : Char) : CharSet := range c c

def diff (s t : CharSet) : CharSet := inter s (complement t)

/-- What is in one of the two sets and not in both. -/
def symmDiff (s t : CharSet) : CharSet := union (diff s t) (diff t s)

/-- The same letter of the other case, among the first 128 characters. -/
def otherCase (c : Char) : Char :=
  if c.isLower then c.toUpper else c.toLower

def contains (c : Char) : CharSet → Bool
  | none => false
  | range lo hi => lo.toNat ≤ c.toNat && c.toNat ≤ hi.toNat
  | decimal => Text.isDecimal c
  | word => Text.isWord c
  | blank => Text.isBlank c
  | having p => p.holds c
  | complement s => !s.contains c
  | union s t => s.contains c || t.contains c
  | inter s t => s.contains c && t.contains c
  | anyCase s => (Text.variants c).any fun v => s.contains v
  | plainCase s => s.contains c || s.contains (otherCase c)

end CharSet

end Snowbank
