import Snowbank.Pattern.Scan
import Snowbank.Pattern.Written

/-!
# Escapes

What a backslash and the characters after it stand for: a character that
would have a meaning of its own, a character that is hard to write, a set of
characters, or a condition on the place of the match.

There are no references back to a group, so a digit after a backslash stands
for nothing, and neither does a letter without a meaning.
-/

namespace Snowbank.Pattern

/-- A character given by its number, after `\x`, `\u` or `\U`: a fixed count
    of digits, or any count in braces. -/
def numbered? (blanks : Bool) (count : Nat) (cs : List Char) : Option (Written × List Char) :=
  match skip blanks cs with
  | '\x7b' :: rest =>
    match upToBrace? blanks rest with
    | some (digits, left) => (charOfHex? digits).map fun c => (.char c false, left)
    | none => none
  | rest =>
    match exactly? blanks count rest with
    | some (digits, left) => (charOfHex? digits).map fun c => (.char c (count == 2), left)
    | none => none

/-- Split a text at the first place where a separator stands. -/
def splitAt? (separator : List Char) : List Char → Option (List Char × List Char)
  | [] => none
  | c :: rest =>
    if separator.isPrefixOf (c :: rest) then some ([], (c :: rest).drop separator.length)
    else (splitAt? separator rest).map fun (before, after) => (c :: before, after)

/-- The set of the characters with a property, asked for by its name or by a name and a value. -/
def propertySet? (negated : Bool) (query : List Char) : Option WrittenSet :=
  let valued (name value : List Char) : Option Text.Property :=
    Text.Property.valued? (String.ofList name) (String.ofList value)
  match splitAt? ['!', '='] query with
  | some (name, value) => (valued name value).map fun p => .having p (!negated)
  | none =>
    match splitAt? [':'] query with
    | some (name, value) => (valued name value).map fun p => .having p negated
    | none =>
      match splitAt? ['='] query with
      | some (name, value) => (valued name value).map fun p => .having p negated
      | none => (Text.Property.named? (String.ofList query)).map fun p => .having p negated

/-- The set of a property, after `\p` or `\P`: one letter, or a name in braces. -/
def property? (blanks negated : Bool) (cs : List Char) : Option (Written × List Char) :=
  match skip blanks cs with
  | '\x7b' :: rest =>
    match upToBrace? blanks rest with
    | some (query, left) => (propertySet? negated query).map fun s => (.set s, left)
    | none => none
  | '\\' :: _ => none
  | c :: left => (propertySet? negated [c]).map fun s => (.set s, left)
  | [] => none

/-- The condition with a name, as in `\b{start}`. -/
def wordEdge? : String → Option WordEdge
  | "start" => some .opening
  | "end" => some .closing
  | "start-half" => some .clearBefore
  | "end-half" => some .clearAfter
  | _ => none

/-- The condition that `\b` stands for. A brace with a number in it is not a
    part of it, but a repetition. -/
def boundary? (blanks : Bool) (cs : List Char) : Option (Written × List Char) :=
  let isLetter (c : Char) : Bool := c.isAlpha || c == '-'
  match cs with
  | '\x7b' :: rest =>
    match run isLetter blanks (skip blanks rest) with
    | (_, []) => none
    | ([], _) => some (.mark (.word .between), cs)
    | (name, '\x7d' :: left) =>
      (wordEdge? (String.ofList name)).map fun edge => (.mark (.word edge), left)
    | _ => none
  | _ => some (.mark (.word .between), cs)

/-- A character of the first 128 that is no letter and no digit stands for
    itself after a backslash, but for the two that bound words. -/
def isEscapable (c : Char) : Bool :=
  c.toNat < 0x80 && !c.isAlphanum && c != '<' && c != '>'

/-- The item that an escape stands for; the backslash is already read. -/
def escape? (blanks : Bool) : List Char → Option (Written × List Char)
  | 'n' :: rest => some (.char '\n' false, rest)
  | 't' :: rest => some (.char '\t' false, rest)
  | 'r' :: rest => some (.char '\r' false, rest)
  | 'a' :: rest => some (.char '\x07' false, rest)
  | 'f' :: rest => some (.char '\x0c' false, rest)
  | 'v' :: rest => some (.char '\x0b' false, rest)
  | 'x' :: rest => numbered? blanks 2 rest
  | 'u' :: rest => numbered? blanks 4 rest
  | 'U' :: rest => numbered? blanks 8 rest
  | 'd' :: rest => some (.set (.letter .decimal false), rest)
  | 'D' :: rest => some (.set (.letter .decimal true), rest)
  | 'w' :: rest => some (.set (.letter .word false), rest)
  | 'W' :: rest => some (.set (.letter .word true), rest)
  | 's' :: rest => some (.set (.letter .blank false), rest)
  | 'S' :: rest => some (.set (.letter .blank true), rest)
  | 'p' :: rest => property? blanks false rest
  | 'P' :: rest => property? blanks true rest
  | 'A' :: rest => some (.mark .textStart, rest)
  | 'z' :: rest => some (.mark .textEnd, rest)
  | 'b' :: rest => boundary? blanks rest
  | 'B' :: rest => some (.mark (.word .inside), rest)
  | '<' :: rest => some (.mark (.word .opening), rest)
  | '>' :: rest => some (.mark (.word .closing), rest)
  | c :: rest => if isEscapable c then some (.char c false, rest) else none
  | [] => none

end Snowbank.Pattern
