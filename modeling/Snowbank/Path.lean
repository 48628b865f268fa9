import Snowbank.DataType

/-!
# Paths

A path names a place inside a document by the keys that lead there, written
with dots between them. The root is `.`.

A dot inside a key is written `\.`, and a dollar sign that begins a key is
doubled, so that the name of no key can be taken for the type tag that ends a
column name. Keys may not be empty: empty pieces of a path are skipped.
-/

namespace Snowbank

/-- A place inside a document, as dotted text. -/
abbrev Path := String

namespace Path

/-- The place of the document itself. -/
def root : Path := "."

/-- Put a character in front of the first piece. -/
def consHead (c : Char) : List (List Char) → List (List Char)
  | [] => [[c]]
  | piece :: rest => (c :: piece) :: rest

/-- Cut at the dots that are not escaped, and resolve those that are. -/
def pieces : List Char → List (List Char)
  | [] => [[]]
  | '\\' :: '.' :: rest => consHead '.' (pieces rest)
  | '.' :: rest => [] :: pieces rest
  | c :: rest => consHead c (pieces rest)

/-- Two dollar signs in front stand for one. -/
def undouble : List Char → List Char
  | '$' :: '$' :: rest => '$' :: rest
  | cs => cs

/-- The keys a path leads through. -/
def keys (path : Path) : List String :=
  if path == "." || path.isEmpty then []
  else ((pieces path.toList).filter (!·.isEmpty)).map fun piece => String.ofList (undouble piece)

/-- Write a backslash before every dot. -/
def escapeDots : List Char → List Char
  | [] => []
  | '.' :: rest => '\\' :: '.' :: escapeDots rest
  | c :: rest => c :: escapeDots rest

/-- Drop the backslash before every dot. -/
def unescapeDots : List Char → List Char
  | [] => []
  | '\\' :: '.' :: rest => '.' :: unescapeDots rest
  | c :: rest => c :: unescapeDots rest

/-- Double a dollar sign in front. -/
def double : List Char → List Char
  | '$' :: rest => '$' :: '$' :: rest
  | cs => cs

/-- A key as a piece of a path. -/
def escapeKey (key : String) : String :=
  String.ofList (double (escapeDots key.toList))

/-- The key that a piece of a path stands for. -/
def unescapeKey (piece : String) : String :=
  String.ofList (unescapeDots (undouble piece.toList))

/-- The path that leads through the given keys. -/
def ofKeys (keys : List String) : Path :=
  if keys.isEmpty then root else ".".intercalate (keys.map escapeKey)

/-- The path of `inner` inside the value at `outer`. -/
def append (outer inner : Path) : Path :=
  if outer == "." || outer.isEmpty then (if inner.isEmpty then root else inner)
  else if inner == "." || inner.isEmpty then outer
  else outer ++ "." ++ inner

/-- The path is `above` or lies beneath it. -/
def isUnder (path above : Path) : Bool :=
  above == "." || above.keys.isPrefixOf path.keys

/-- The path as seen from `above`, if it lies there; otherwise the path. -/
def relativeTo (path above : Path) : Path :=
  if path.isUnder above then ofKeys (path.keys.drop above.keys.length) else path

/-- How many keys the path leads through. -/
def depth (path : Path) : Nat := path.keys.length

/-- The name of the column that holds the values of one type at a path. -/
def typed (path : Path) (type : DataType) : String :=
  let tag := String.ofList ['.', '$', type.storage.tag]
  if path == "." || path.isEmpty then tag else path ++ tag

/-- The path and type of a column name. A name whose last dot is escaped does
    not end in a type tag. -/
def untyped? (name : String) : Option (Path × DataType) :=
  match name.toList.reverse with
  | tag :: '$' :: '.' :: back =>
    match DataType.ofTag? tag with
    | none => none
    | some type =>
      if (back.takeWhile (· == '\\')).length % 2 == 1 then none
      else if back.isEmpty then some (root, type)
      else some (String.ofList back.reverse, type)
  | _ => none

end Path

end Snowbank
