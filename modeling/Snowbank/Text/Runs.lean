/-!
# Tables of Characters

Tables about all characters are written as text, to keep them short. One kind
gives each character a label: the table is a list of runs, each a label of
fixed width followed by the number of characters in the run, and the runs
follow each other from the first character on. A run of one character needs no
number, and a run of characters that are not in use has no label but a space;
two labels with a slash take turns, as often as the number says. The other kind
is a set: a list of ranges, each the number of characters between it and the
one before and, where it has several, how many come after its first. All
numbers are hexadecimal.
-/

namespace Snowbank.Text

/-- The value of a hexadecimal digit. -/
def hexValue? (c : Char) : Option Nat :=
  if c.isDigit then some (c.toNat - '0'.toNat)
  else if 'a' ≤ c && c ≤ 'f' then some (c.toNat - 'a'.toNat + 10)
  else if 'A' ≤ c && c ≤ 'F' then some (c.toNat - 'A'.toNat + 10)
  else none

/-- The number written by hexadecimal digits. -/
def hexNumber? (digits : List Char) : Option Nat :=
  if digits.isEmpty then none
  else (digits.mapM hexValue?).map fun values => values.foldl (fun n d => n * 16 + d) 0

/-- Characters with one label; the last of them has the number `last`. -/
structure Run where
  last : Nat
  label : String

/-- The words of a table. -/
def words (lines : List String) : List String :=
  lines.flatMap fun line => (line.splitOn " ").filter (· != "")

/-- Runs with a space between them: a label begins with a capital and a small letter. -/
def spaced : List Char → List Char
  | '/' :: c :: rest => '/' :: c :: spaced rest
  | c :: d :: rest =>
    if c.isUpper && d.isLower then ' ' :: c :: spaced (d :: rest) else c :: spaced (d :: rest)
  | rest => rest

/-- The labels of the runs written by a word, each with the number of its
    characters; a word without a label writes a run of `unused` ones. -/
def wordRuns (width : Nat) (unused word : String) : List (String × Nat) :=
  let digits := (word.toList.reverse.takeWhile fun c => !c.isLower).reverse
  let labels := word.toList.take (word.length - digits.length)
  let count := (hexNumber? digits).getD 1
  match labels.take width, labels.drop (width + 1) with
  | [], _ => [(unused, count)]
  | label, [] => [(String.ofList label, count)]
  | label, other =>
    (List.replicate count [(String.ofList label, 1), (String.ofList other, 1)]).flatten

/-- The runs of some lengths, after `start` characters. -/
def runsFrom : Nat → List (String × Nat) → List Run
  | _, [] => []
  | start, (label, count) :: more => ⟨start + count - 1, label⟩ :: runsFrom (start + count) more

/-- The runs of a table whose labels have `width` characters. -/
def readRuns (width : Nat) (unused : String) (lines : List String) : List Run :=
  let runs := words (lines.map fun line => String.ofList (spaced line.toList))
  runsFrom 0 (runs.flatMap (wordRuns width unused))

/-- The label of a character, given by its number. -/
def labelOf (runs : List Run) (n : Nat) : Option String :=
  (runs.find? fun r => n ≤ r.last).map (·.label)

/-- The ranges written by some words, after `start` characters. -/
def rangesFrom : Nat → List String → List (Nat × Nat)
  | _, [] => []
  | start, word :: more =>
    let gap := word.toList.takeWhile (· != '-')
    let lo := start + (hexNumber? gap).getD 0
    let hi := lo + (hexNumber? (word.toList.drop (gap.length + 1))).getD 0
    (lo, hi) :: rangesFrom (hi + 1) more

/-- The ranges of a table. -/
def readRanges (lines : List String) : List (Nat × Nat) :=
  rangesFrom 0 (words lines)

/-- The number lies in one of the ranges. -/
def inRanges (n : Nat) (ranges : List (Nat × Nat)) : Bool :=
  ranges.any fun (lo, hi) => lo ≤ n && n ≤ hi

end Snowbank.Text
