import Snowbank.Pattern.Class

/-!
# Reading Patterns

The written form of patterns: characters that stand for themselves, `.` for
any character but a line break, classes in brackets, groups, alternatives
between bars, the repetitions `*`, `+`, `?` and counts in braces, anchors,
and switches. There is no way to look around or to refer back, and a text that
asks for that, or that is not well formed, is no pattern.

A repetition may be marked as lazy. That changes which match is found and not
whether there is one, so the mark is read and dropped.
-/

namespace Snowbank.Pattern

/-- The switch with a letter. -/
def switch? : Char → Option Switch
  | 'i' => some .ignoreCase
  | 'm' => some .lines
  | 's' => some .dotAll
  | 'U' => some .swapGreed
  | 'u' => some .allScripts
  | 'R' => some .returns
  | 'x' => some .blanks
  | _ => none

/-- The change written by letters: those before a hyphen are turned on, those after it are turned
    off. No letter and no second hyphen may come again, and something must follow the hyphen. -/
def switchChange? (letters : List Char) : Option SwitchChange :=
  let before := letters.takeWhile (· != '-')
  let rest := letters.drop before.length
  if !letters.Nodup || rest == ['-'] then none
  else
    match before.mapM switch?, (rest.drop 1).mapM switch? with
    | some on, some off => some ⟨on, off⟩
    | _, _ => none

/-- The name of a group, up to its closing angle, and what is left. -/
def groupName? (cs : List Char) : Option (List Char × List Char) :=
  let name := cs.takeWhile (· != '>')
  let isFirst (c : Char) : Bool := c == '_' || Text.isAlphabetic c
  let isNext (c : Char) : Bool := Text.isAlphanumeric c || ['_', '.', '[', ']'].contains c
  match name, cs.drop name.length with
  | c :: more, _ :: left => if isFirst c && more.all isNext then some (name, left) else none
  | _, _ => none

/-- The front of a group. -/
inductive Opening where
  /-- Only switches, for the rest of the group around. -/
  | switches (change : SwitchChange)
  | group (counted : Bool) (name : Option (List Char)) (change : SwitchChange)

/-- The front of a group, after its parenthesis. -/
def opening? (blanks : Bool) (cs : List Char) : Option (Opening × List Char) :=
  let named (rest : List Char) : Option (Opening × List Char) :=
    (groupName? rest).map fun (name, left) => (.group true (some name) .none, left)
  match skip blanks cs with
  | '?' :: 'P' :: '<' :: rest => named rest
  | '?' :: '<' :: rest => named rest
  | '?' :: rest =>
    let letters := rest.takeWhile fun c => c != ':' && c != ')'
    match switchChange? letters, rest.drop letters.length with
    | some change, ':' :: left => some (.group false none change, left)
    | some change, ')' :: left =>
      if letters.isEmpty then none else some (.switches change, left)
    | _, _ => none
  | rest => some (.group true none .none, rest)

/-- The least and the greatest count of a repetition, after its opening brace. -/
def counts? (blanks : Bool) (cs : List Char) : Option (Nat × Option Nat × List Char) :=
  match number? blanks (skip blanks cs) with
  | none => none
  | some (n, '\x7d' :: left) => some (n, some n, left)
  | some (n, ',' :: rest) =>
    match skip blanks rest with
    | '\x7d' :: left => some (n, none, left)
    | rest =>
      match number? blanks rest with
      | some (m, '\x7d' :: left) => if n ≤ m then some (n, some m, left) else none
      | _ => none
  | _ => none

/-- The repetition at the front: its counts, and what is left after its mark as lazy. -/
def repetition? (blanks : Bool) : List Char → Option (Nat × Option Nat × List Char)
  | '*' :: rest => some (0, none, skipLazy rest)
  | '+' :: rest => some (1, none, skipLazy rest)
  | '?' :: rest => some (0, some 1, skipLazy rest)
  | '\x7b' :: rest =>
    (counts? blanks rest).map fun (n, m, left) => (n, m, skipLazy (skip blanks left))
  | _ => none
where
  /-- Past the mark of a lazy repetition. -/
  skipLazy : List Char → List Char
    | '?' :: rest => rest
    | rest => rest

/-- The repetition of the item read last, in front of the others. A switch is nothing to repeat. -/
def repeatLast? (least : Nat) (most : Option Nat) : List Written → Option (List Written)
  | [] => none
  | .switches _ :: _ => none
  | item :: items => some (.rep item least most :: items)

/-- An item that is no group and no repetition. -/
def item? (blanks : Bool) : List Char → Option (Written × List Char)
  | '[' :: rest => (class? blanks rest).map fun (s, left) => (.set s, left)
  | '\\' :: rest => escape? blanks rest
  | '.' :: rest => some (.dot, rest)
  | '^' :: rest => some (.mark .lineStart, rest)
  | '$' :: rest => some (.mark .lineEnd, rest)
  | c :: rest => some (.char c false, rest)
  | [] => none

/-- What is left to read, with the names of the groups so far and with the switch on blanks. -/
structure Cursor where
  rest : List Char
  names : List (List Char)
  blanks : Bool

namespace Cursor

/-- Go on with another rest. -/
def goTo (c : Cursor) (rest : List Char) : Cursor :=
  { c with rest := rest }

/-- Go on with the switch on blanks as a change leaves it. -/
def change (c : Cursor) (change : SwitchChange) : Cursor :=
  { c with blanks := (c.blanks || change.on.contains .blanks) && !change.off.contains .blanks }

/-- Note the name of a group, if it has one. No two groups have one name. -/
def note? (c : Cursor) : Option (List Char) → Option Cursor
  | none => some c
  | some name => if c.names.contains name then none else some { c with names := name :: c.names }

end Cursor

mutual

/-- Alternatives up to the end of the text or of the group. -/
def alternatives? : Nat → Cursor → Option (List (List Written) × Cursor)
  | 0, _ => none
  | fuel + 1, cursor =>
    match row? fuel [] cursor with
    | none => none
    | some (row, after) =>
      match after.rest with
      | '|' :: rest =>
        (alternatives? fuel (after.goTo rest)).map fun (rows, last) => (row :: rows, last)
      | _ => some ([row], after)

/-- Items in a row, after those read so far, the last one first. -/
def row? : Nat → List Written → Cursor → Option (List Written × Cursor)
  | 0, _, _ => none
  | fuel + 1, seen, cursor =>
    let rest := skip cursor.blanks cursor.rest
    match rest with
    | [] => some (seen.reverse, cursor.goTo rest)
    | '|' :: _ => some (seen.reverse, cursor.goTo rest)
    | ')' :: _ => some (seen.reverse, cursor.goTo rest)
    | '(' :: inner =>
      match opening? cursor.blanks inner with
      | none => none
      | some (.switches change, left) =>
        row? fuel (.switches change :: seen) ((cursor.goTo left).change change)
      | some (.group counted name change, left) =>
        match (cursor.goTo left).note? name with
        | none => none
        | some start =>
          match alternatives? fuel (start.change change) with
          | none => none
          | some (rows, last) =>
            match last.rest with
            | ')' :: left =>
              row? fuel (.group counted change rows :: seen) ⟨left, last.names, cursor.blanks⟩
            | _ => none
    | c :: _ =>
      if c == '*' || c == '+' || c == '?' || c == '\x7b' then
        match repetition? cursor.blanks rest with
        | none => none
        | some (least, most, left) =>
          match repeatLast? least most seen with
          | none => none
          | some seen => row? fuel seen (cursor.goTo left)
      else
        match item? cursor.blanks rest with
        | none => none
        | some (item, left) => row? fuel (item :: seen) (cursor.goTo left)

end

/-- A text as the alternatives of a pattern. Every second step of the reading
    takes a character off the text. -/
def rows? (text : String) : Option (List (List Written)) :=
  let cs := text.toList
  match alternatives? (2 * cs.length + 2) ⟨cs, [], false⟩ with
  | some (rows, last) => if last.rest.isEmpty then some rows else none
  | none => none

end Snowbank.Pattern
