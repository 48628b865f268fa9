import Snowbank.Text.Property

/-!
# Letters, Digits and Word Characters

The character classes that patterns and names are made of, by the categories
and properties of the Unicode standard. The first 128 characters are told
apart without a look at the tables.
-/

namespace Snowbank.Text

/-- The character is used as a letter. -/
def isAlphabetic (c : Char) : Bool :=
  if c.toNat < 0x80 then c.isAlpha else Property.alphabetic.holds c

/-- The character is used as a letter or is a number. -/
def isAlphanumeric (c : Char) : Bool :=
  if c.toNat < 0x80 then c.isAlphanum
  else Property.alphabetic.holds c || ["Nd", "Nl", "No"].contains (category c)

/-- A decimal digit of any script. -/
def isDecimal (c : Char) : Bool :=
  if c.toNat < 0x80 then c.isDigit else category c == "Nd"

/-- A word character of the first 128. -/
def isPlainWord (c : Char) : Bool :=
  c.isAlphanum || c == '_'

/-- A character that words are made of: letters, marks, decimal digits,
    connecting punctuation and the two joiners. -/
def isWord (c : Char) : Bool :=
  if c.toNat < 0x80 then isPlainWord c
  else
    Property.alphabetic.holds c || Property.joinControl.holds c ||
      ["Mn", "Mc", "Me", "Nd", "Pc"].contains (category c)

end Snowbank.Text
