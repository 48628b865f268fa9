import Snowbank.Text.Blank
import Snowbank.Text.Runs

/-!
# Steps through a Written Pattern

A pattern may be written with blanks and comments in it, if a switch says so.
A comment runs from a hash sign to the end of the line. The functions here
read the small parts that may have blanks between their characters; `blanks`
tells them whether that is so.
-/

namespace Snowbank.Pattern

/-- Past blanks and comments; `inside` a comment at first. -/
def skipBlanks : (inside : Bool) → List Char → List Char
  | _, [] => []
  | true, c :: rest => skipBlanks (c != '\n') rest
  | false, c :: rest =>
    if Text.isBlank c then skipBlanks false rest
    else if c == '#' then skipBlanks true rest
    else c :: rest

/-- Past what does not count. -/
def skip (blanks : Bool) (cs : List Char) : List Char :=
  if blanks then skipBlanks false cs else cs

/-- The next character that counts. A comment is not looked through: of a
    hash sign only the blanks after it are passed. -/
def peek? (blanks : Bool) (cs : List Char) : Option Char :=
  if blanks then
    let next :=
      match cs.dropWhile Text.isBlank with
      | '#' :: rest => (rest.dropWhile Text.isBlank).head?
      | rest => rest.head?
    next.or cs.head?
  else cs.head?

/-- The characters at the front that satisfy a test, and what is left. -/
def runFrom (test : Char → Bool) (blanks : Bool) : Nat → List Char → List Char × List Char
  | fuel + 1, c :: rest =>
    if test c then
      let (found, left) := runFrom test blanks fuel (skip blanks rest)
      (c :: found, left)
    else ([], c :: rest)
  | _, cs => ([], cs)

/-- The characters at the front that satisfy a test, and what is left. -/
def run (test : Char → Bool) (blanks : Bool) (cs : List Char) : List Char × List Char :=
  runFrom test blanks cs.length cs

/-- The text up to a closing brace, and what is left after it. -/
def upToBrace? (blanks : Bool) (cs : List Char) : Option (List Char × List Char) :=
  match run (· != '\x7d') blanks (skip blanks cs) with
  | (text, _ :: left) => some (text, left)
  | (_, []) => none

/-- A fixed count of characters. -/
def exactly? (blanks : Bool) : Nat → List Char → Option (List Char × List Char)
  | 0, cs => some ([], cs)
  | _, [] => none
  | n + 1, c :: rest =>
    (exactly? blanks n (skip blanks rest)).map fun (found, left) => (c :: found, left)

/-- A decimal number that takes no more than 32 bits. Blanks around it never count. -/
def number? (blanks : Bool) (cs : List Char) : Option (Nat × List Char) :=
  let (digits, left) := run Char.isDigit blanks (cs.dropWhile Text.isBlank)
  let n := digits.foldl (fun n c => n * 10 + (c.toNat - '0'.toNat)) 0
  if digits.isEmpty || n > 0xFFFFFFFF then none else some (n, left.dropWhile Text.isBlank)

/-- The character with the number written by hexadecimal digits. -/
def charOfHex? (digits : List Char) : Option Char :=
  match Text.hexNumber? digits with
  | some n =>
    if n < 0xD800 || (0xE000 ≤ n && n < 0x110000) then some (Char.ofNat n) else none
  | none => none

end Snowbank.Pattern
