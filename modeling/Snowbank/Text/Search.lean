/-!
# Searching and Cutting Text

Positions in a text count characters from zero. A position before the
beginning counts as the beginning.
-/

namespace Snowbank.Text

/-- The first position at which `needle` occurs; the text begins at position `i`. -/
def findFrom (needle : List Char) : List Char → Nat → Option Nat
  | [], i => if needle.isEmpty then some i else none
  | c :: rest, i =>
    if needle.isPrefixOf (c :: rest) then some i else findFrom needle rest (i + 1)

/-- The first position, not before `start`, at which `needle` occurs in `text`, or -1. -/
def indexOf (text needle : String) (start : Int) : Int :=
  let cs := text.toList
  let i := start.toNat
  if cs.length < i then -1
  else
    match findFrom needle.toList (cs.drop i) i with
    | some j => j
    | none => -1

/-- The characters from `start` up to `stop`; both are moved into the text. -/
def substring (text : String) (start stop : Int) : String :=
  String.ofList ((text.toList.take stop.toNat).drop start.toNat)

/-- The pieces of a text between the occurrences of a separator. The first
    number is how many characters of an occurrence are still to be passed,
    the first list the piece so far, backwards. -/
def splitChars (separator : List Char) : Nat → List Char → List Char → List (List Char)
  | _, piece, [] => [piece.reverse]
  | skip + 1, piece, _ :: rest => splitChars separator skip piece rest
  | 0, piece, c :: rest =>
    if separator.isPrefixOf (c :: rest) then
      piece.reverse :: splitChars separator (separator.length - 1) [] rest
    else splitChars separator 0 (c :: piece) rest

/-- The pieces of a text between the occurrences of a separator, which must not be empty. -/
def splitOn (text separator : String) : List String :=
  (splitChars separator.toList 0 [] text.toList).map String.ofList

/-- The text begins with the given one. -/
def startsWith (text head : String) : Bool :=
  head.toList.isPrefixOf text.toList

/-- The text ends with the given one. -/
def endsWith (text tail : String) : Bool :=
  tail.toList.isSuffixOf text.toList

/-- The text has an occurrence of the given one. -/
def contains (text part : String) : Bool :=
  (findFrom part.toList text.toList 0).isSome

end Snowbank.Text
