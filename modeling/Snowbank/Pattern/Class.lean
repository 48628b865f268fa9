import Snowbank.Pattern.Escape

/-!
# Classes

Sets of characters in brackets: characters, ranges, escapes, named sets and
further classes, and between them the operators `&&`, `--` and `~~`. The
operators bind alike and group to the left: each takes all that was read
before it in the same brackets as its left side.
-/

namespace Snowbank.Pattern

/-- The members of a named set, as in `[:alpha:]`. -/
def namedMembers? (name : String) : Option CharSet :=
  let lower := CharSet.range 'a' 'z'
  let upper := CharSet.range 'A' 'Z'
  let digit := CharSet.range '0' '9'
  let alpha := CharSet.union lower upper
  let alnum := CharSet.union alpha digit
  match name with
  | "alnum" => some alnum
  | "alpha" => some alpha
  | "ascii" => some (.range '\x00' '\x7f')
  | "blank" => some (.union (.single '\t') (.single ' '))
  | "cntrl" => some (.union (.range '\x00' '\x1f') (.single '\x7f'))
  | "digit" => some digit
  | "graph" => some (.range '!' '~')
  | "lower" => some lower
  | "print" => some (.range ' ' '~')
  | "punct" =>
    some (.union (.union (.range '!' '/') (.range ':' '@'))
      (.union (.range '[' '\x60') (.range '\x7b' '~')))
  | "space" => some (.union (.range '\t' '\r') (.single ' '))
  | "upper" => some upper
  | "word" => some (.union alnum (.single '_'))
  | "xdigit" => some (.union digit (.union (.range 'a' 'f') (.range 'A' 'F')))
  | _ => none

/-- The named set at the front, after its opening bracket. -/
def namedSet? : List Char → Option (WrittenSet × List Char)
  | ':' :: rest =>
    let (negated, rest) :=
      match rest with
      | '^' :: more => (true, more)
      | _ => (false, rest)
    let name := rest.takeWhile (· != ':')
    match rest.drop name.length with
    | ':' :: ']' :: left =>
      (namedMembers? (String.ofList name)).map fun s => (.named s negated, left)
    | _ => none
  | _ => none

/-- The item as a member of a class. A condition on the place of a match is none. -/
def Written.toSet? : Written → Option WrittenSet
  | char c _ => some (.char c)
  | set s => some s
  | _ => none

/-- A character or an escape at the front of a class. -/
def member? (blanks : Bool) : List Char → Option (Written × List Char)
  | '\\' :: rest => escape? blanks rest
  | c :: rest => some (.char c false, rest)
  | [] => none

/-- A member of a class, or a range between two characters. A hyphen before
    the closing bracket or before another hyphen makes no range. -/
def span? (blanks : Bool) (cs : List Char) : Option (WrittenSet × List Char) :=
  match member? blanks cs with
  | none => none
  | some (first, rest) =>
    match skip blanks rest with
    | '-' :: more =>
      let next := peek? blanks more
      if next == some ']' || next == some '-' then
        first.toSet?.map fun s => (s, '-' :: more)
      else
        match first, member? blanks (skip blanks more) with
        | .char lo _, some (.char hi _, left) =>
          if lo.toNat ≤ hi.toNat then some (.range lo hi, left) else none
        | _, _ => none
    | rest => first.toSet?.map fun s => (s, rest)

/-- What has been read of a class: the left side of an operator that waits for
    its right side, and the members read since, the last one first. -/
structure OpenClass where
  left : Option (WrittenSet × SetOp)
  members : List WrittenSet

namespace OpenClass

/-- One member more. -/
def add (c : OpenClass) (s : WrittenSet) : OpenClass :=
  { c with members := s :: c.members }

/-- The set of all that has been read. -/
def close (c : OpenClass) : WrittenSet :=
  match c.left with
  | some (s, op) => .op op s (.union c.members.reverse)
  | none => .union c.members.reverse

/-- An operator follows. -/
def operator (c : OpenClass) (op : SetOp) : OpenClass :=
  ⟨some (c.close, op), []⟩

end OpenClass

mutual

/-- The members of a class up to its closing bracket, after those read so far. -/
def members? (blanks : Bool) : Nat → OpenClass → List Char → Option (WrittenSet × List Char)
  | 0, _, _ => none
  | fuel + 1, seen, cs =>
    match skip blanks cs with
    | [] => none
    | ']' :: left => some (seen.close, left)
    | '&' :: '&' :: rest => members? blanks fuel (seen.operator .both) rest
    | '-' :: '-' :: rest => members? blanks fuel (seen.operator .without) rest
    | '~' :: '~' :: rest => members? blanks fuel (seen.operator .either) rest
    | '[' :: rest =>
      match namedSet? rest with
      | some (s, left) => members? blanks fuel (seen.add s) left
      | none =>
        match bracket? blanks fuel rest with
        | some (s, left) => members? blanks fuel (seen.add s) left
        | none => none
    | rest =>
      match span? blanks rest with
      | some (s, left) => members? blanks fuel (seen.add s) left
      | none => none

/-- A class, after its opening bracket. Hyphens right at its front are
    members, and so is a closing bracket. -/
def bracket? (blanks : Bool) : Nat → List Char → Option (WrittenSet × List Char)
  | 0, _ => none
  | fuel + 1, cs =>
    let (negated, cs) :=
      match skip blanks cs with
      | '^' :: rest => (true, skip blanks rest)
      | rest => (false, rest)
    let (hyphens, rest) := run (· == '-') blanks cs
    let (front, rest) :=
      match hyphens, rest with
      | [], ']' :: more => ([']'], more)
      | _, _ => (hyphens, rest)
    (members? blanks fuel ⟨none, front.map .char⟩ rest).map fun (s, left) =>
      (.bracket negated s, left)

end

/-- The class at the front, after its opening bracket. Every second step of
    the reading takes a character off the text. -/
def class? (blanks : Bool) (cs : List Char) : Option (WrittenSet × List Char) :=
  bracket? blanks (2 * cs.length + 2) cs

end Snowbank.Pattern
