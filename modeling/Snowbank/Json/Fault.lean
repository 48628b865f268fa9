/-!
# Faults in JSON Text

Why a text is not what it should be, and where. A place is told as a line and
a column, both counted in bytes of the text: the column is the number of bytes
of the line up to and with the one at fault.
-/

namespace Snowbank.Json

/-- What is wrong with a text. -/
inductive FaultKind where
  | listUnfinished
  | objectUnfinished
  | stringUnfinished
  | valueUnfinished
  | colonMissing
  | listSeparator
  | objectSeparator
  | badWord
  | valueMissing
  | badEscape
  | badNumber
  | numberRange
  | controlCharacter
  | keyMissing
  | loneSurrogate
  | halfSurrogate
  | trailingComma
  | trailingText
  | tooDeep
  /-- A value of another kind than the one asked for. -/
  | unexpected (found wanted : String)
  deriving DecidableEq, Repr

/-- What is wrong, what was left to read when it was found, and how many bytes
    of that belong to the fault. -/
structure Fault where
  kind : FaultKind
  rest : List Char
  ahead : Nat
  deriving DecidableEq, Repr

namespace FaultKind

/-- The fault in words. -/
def message : FaultKind → String
  | listUnfinished => "EOF while parsing a list"
  | objectUnfinished => "EOF while parsing an object"
  | stringUnfinished => "EOF while parsing a string"
  | valueUnfinished => "EOF while parsing a value"
  | colonMissing => "expected \x60:\x60"
  | listSeparator => "expected \x60,\x60 or \x60]\x60"
  | objectSeparator => "expected \x60,\x60 or \x60\x7d\x60"
  | badWord => "expected ident"
  | valueMissing => "expected value"
  | badEscape => "invalid escape"
  | badNumber => "invalid number"
  | numberRange => "number out of range"
  | controlCharacter => "control character (\\u0000-\\u001F) found while parsing a string"
  | keyMissing => "key must be a string"
  | loneSurrogate => "lone leading surrogate in hex escape"
  | halfSurrogate => "unexpected end of hex escape"
  | trailingComma => "trailing comma"
  | trailingText => "trailing characters"
  | tooDeep => "recursion limit exceeded"
  | unexpected found wanted => "invalid type: " ++ found ++ ", expected " ++ wanted

end FaultKind

/-- How many bytes characters take. -/
def byteCount (cs : List Char) : Nat := cs.foldl (fun n c => n + c.utf8Size) 0

/-- The line and the column of a number of bytes into a text. A character that
    is only begun counts with the bytes that are in. -/
def placeAt : Nat → Nat → Nat → List Char → Nat × Nat
  | line, column, _, [] => (line, column)
  | line, column, bytes, c :: rest =>
    if bytes == 0 then (line, column)
    else if c == '\n' then placeAt (line + 1) 0 (bytes - 1) rest
    else placeAt line (column + min bytes c.utf8Size) (bytes - c.utf8Size) rest

namespace Fault

/-- How far into the text the fault is. -/
def offset (text : List Char) (f : Fault) : Nat :=
  byteCount text - byteCount f.rest + f.ahead

/-- The fault in words, with its place in the text. -/
def message (text : String) (f : Fault) : String :=
  let (line, column) := placeAt 1 0 (f.offset text.toList) text.toList
  f.kind.message ++ " at line " ++ toString line ++ " column " ++ toString column

end Fault

end Snowbank.Json
