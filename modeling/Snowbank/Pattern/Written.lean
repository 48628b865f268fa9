import Snowbank.Pattern.Basic

/-!
# Written Patterns

A pattern as it is written: items in rows, rows as alternatives of a group,
and among the items the switches that change what the items after them mean.

Brackets and repetitions can be nested. How deep they are is a measure of the
written pattern, and there is a limit to it.
-/

namespace Snowbank.Pattern

/-- A switch on what the rest of a pattern means. -/
inductive Switch where
  /-- Letters match in both cases. -/
  | ignoreCase
  /-- `^` and `$` match at every line. -/
  | lines
  /-- `.` matches the end of a line too. -/
  | dotAll
  /-- Repetitions are lazy, and those marked as lazy are not. -/
  | swapGreed
  /-- Sets and case variants are those of every script. -/
  | allScripts
  /-- A carriage return ends a line too. -/
  | returns
  /-- Blanks and comments between the items are not part of the pattern. -/
  | blanks
  deriving DecidableEq

/-- The switches that are on at a place of a pattern. -/
abbrev Switches := List Switch

/-- Switches to turn on and to turn off. -/
structure SwitchChange where
  on : List Switch
  off : List Switch

namespace SwitchChange

/-- A change of nothing. -/
def none : SwitchChange := ⟨[], []⟩

/-- The switches after a change. -/
def apply (change : SwitchChange) (switches : Switches) : Switches :=
  switches.filter (fun s => !change.off.contains s) ++ change.on

end SwitchChange

/-- An operation on two sets of a class. -/
inductive SetOp where
  /-- What both sides have. -/
  | both
  /-- What the left side has and the right side has not. -/
  | without
  /-- What one side has and the other has not. -/
  | either

/-- A set that is named by a letter after a backslash. -/
inductive LetterSet where
  | decimal
  | word
  | blank

/-- A set of characters as written. -/
inductive WrittenSet where
  | char (c : Char)
  | range (lo hi : Char)
  | letter (kind : LetterSet) (negated : Bool)
  /-- A set of the first 128 characters that has a name. -/
  | named (members : CharSet) (negated : Bool)
  | having (p : Text.Property) (negated : Bool)
  | bracket (negated : Bool) (s : WrittenSet)
  | union (items : List WrittenSet)
  | op (kind : SetOp) (s t : WrittenSet)

/-- A condition on the place of a match as written. -/
inductive Mark where
  | lineStart
  | lineEnd
  | textStart
  | textEnd
  | word (edge : WordEdge)

/-- An item of a pattern as written. -/
inductive Written where
  /-- A character; `byte` if it was given by two hexadecimal digits. -/
  | char (c : Char) (byte : Bool)
  | dot
  | mark (m : Mark)
  | set (s : WrittenSet)
  | switches (change : SwitchChange)
  /-- Alternatives in parentheses; `counted` unless they were marked as not to be. -/
  | group (counted : Bool) (change : SwitchChange) (rows : List (List Written))
  | rep (item : Written) (least : Nat) (most : Option Nat)

namespace WrittenSet

mutual

/-- How deep a set is nested. -/
def depth : WrittenSet → Nat
  | bracket _ s => s.depth + 1
  | union [s] => s.depth
  | union items => if items.isEmpty then 0 else depthOfAll items + 1
  | op _ s t => max s.depth t.depth + 1
  | _ => 0

/-- How deep the deepest of some sets is nested. -/
def depthOfAll : List WrittenSet → Nat
  | [] => 0
  | s :: rest => max s.depth (depthOfAll rest)

end

end WrittenSet

namespace Written

mutual

/-- How deep an item is nested. -/
def depth : Written → Nat
  | set s => s.depth
  | group _ _ rows => depthOfRows rows + 1
  | rep item _ _ => item.depth + 1
  | _ => 0

/-- How deep a row of items is nested: a row of one item is that item. -/
def depthOfRow : List Written → Nat
  | [] => 0
  | [item] => item.depth
  | item :: rest => max item.depth (deepest rest) + 1

/-- How deep the deepest of some items is nested. -/
def deepest : List Written → Nat
  | [] => 0
  | item :: rest => max item.depth (deepest rest)

/-- How deep alternatives are nested: one alternative alone is its row. -/
def depthOfRows : List (List Written) → Nat
  | [] => 0
  | [row] => depthOfRow row
  | row :: rows => max (depthOfRow row) (deepestRow rows) + 1

/-- How deep the deepest of some rows is nested. -/
def deepestRow : List (List Written) → Nat
  | [] => 0
  | row :: rows => max (depthOfRow row) (deepestRow rows)

end

end Written

end Snowbank.Pattern
