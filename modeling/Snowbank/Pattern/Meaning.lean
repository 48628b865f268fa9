import Snowbank.Pattern.Written

/-!
# The Meaning of Written Patterns

What a written pattern stands for, given the switches that are on. A switch in
a row holds for the items after it, also in the later alternatives of the same
group, and ends with the group.

Where letters match in both cases, every class and both sides of every
operator take in the case variants of their members before anything is taken
away from them or from all characters.

Where sets are not those of every script, only the first 128 characters can be
told apart. A set that would reach past them then has no meaning.
-/

namespace Snowbank.Pattern

/-- The set with the case variants of its members, where case does not count. -/
def foldCase (switches : Switches) (s : CharSet) : CharSet :=
  if !switches.contains .ignoreCase then s
  else if switches.contains .allScripts then .anyCase s
  else .plainCase s

/-- The set, or all other characters. There is no telling which these are
    where sets are not those of every script. -/
def negate? (switches : Switches) (negated : Bool) (s : CharSet) : Option CharSet :=
  if !negated then some s
  else if switches.contains .allScripts then some (.complement s)
  else none

/-- A character, as a part of a set, has a meaning. -/
def isKnown (switches : Switches) (c : Char) : Bool :=
  switches.contains .allScripts || c.toNat < 0x80

/-- The set that a letter names, of every script or among the first 128 characters. -/
def LetterSet.members (allScripts : Bool) : LetterSet → CharSet
  | decimal => if allScripts then .decimal else .range '0' '9'
  | blank => if allScripts then .blank else .union (.range '\t' '\r') (.single ' ')
  | word =>
    if allScripts then .word
    else
      .union (.union (.range 'a' 'z') (.range 'A' 'Z'))
        (.union (.range '0' '9') (.single '_'))

/-- An operation on two sets. -/
def SetOp.apply (s t : CharSet) : SetOp → CharSet
  | both => .inter s t
  | without => .diff s t
  | either => .symmDiff s t

namespace WrittenSet

mutual

def members? (switches : Switches) : WrittenSet → Option CharSet
  | char c => if isKnown switches c then some (.single c) else none
  | range lo hi => if isKnown switches hi then some (.range lo hi) else none
  | letter kind negated =>
    negate? switches negated (kind.members (switches.contains .allScripts))
  | named s negated => negate? switches negated (foldCase switches s)
  | having p negated =>
    if switches.contains .allScripts then
      negate? switches negated (foldCase switches (.having p))
    else none
  | bracket negated s =>
    match s.members? switches with
    | some s => negate? switches negated (foldCase switches s)
    | none => none
  | union items => membersOfAll? switches items
  | op kind s t =>
    match s.members? switches, t.members? switches with
    | some s, some t => some (kind.apply (foldCase switches s) (foldCase switches t))
    | _, _ => none

/-- The set of the members of some sets. -/
def membersOfAll? (switches : Switches) : List WrittenSet → Option CharSet
  | [] => some .none
  | s :: rest =>
    match s.members? switches, membersOfAll? switches rest with
    | some s, some t => some (.union s t)
    | _, _ => none

end

end WrittenSet

/-- The condition that is meant. -/
def Mark.meaning (switches : Switches) : Mark → Place
  | lineStart =>
    if switches.contains .lines then .lineStart (switches.contains .returns) else .textStart
  | lineEnd =>
    if switches.contains .lines then .lineEnd (switches.contains .returns) else .textEnd
  | textStart => .textStart
  | textEnd => .textEnd
  | word edge => .word edge (!switches.contains .allScripts)

/-- A dot: any character, but the end of a line only where it was asked for. -/
def dot? (switches : Switches) : Option CharSet :=
  if !switches.contains .allScripts then none
  else if switches.contains .dotAll then some (.complement .none)
  else if switches.contains .returns then
    some (.complement (.union (.single '\n') (.single '\r')))
  else some (.complement (.single '\n'))

/-- A pattern after another one. -/
def followedBy (p q : Pattern) : Pattern :=
  match p with
  | empty => q
  | _ => .seq p q

namespace Written

mutual

def meaning? (switches : Switches) : Written → Option Pattern
  | char c byte =>
    if byte && !isKnown switches c then none
    else some (.one (foldCase switches (.single c)))
  | dot => (dot? switches).map .one
  | mark m => some (.place (m.meaning switches))
  | set s => (s.members? switches).map .one
  | .switches _ => some .empty
  | group counted change rows =>
    (meaningOfRows? (change.apply switches) rows).map fun p => if counted then .group p else p
  | rep item least most => (item.meaning? switches).map fun p => .rep p least most

/-- The pattern that a row stands for, after one read so far, and the switches at its end. -/
def meaningOfRow? (switches : Switches) (seen : Pattern) :
    List Written → Option (Pattern × Switches)
  | [] => some (seen, switches)
  | item :: rest =>
    match item.meaning? switches with
    | none => none
    | some p =>
      let after :=
        match item with
        | .switches change => change.apply switches
        | _ => switches
      meaningOfRow? after (followedBy seen p) rest

/-- The pattern that alternatives stand for. -/
def meaningOfRows? (switches : Switches) : List (List Written) → Option Pattern
  | [] => some .empty
  | [row] => (meaningOfRow? switches .empty row).map (·.1)
  | row :: rows =>
    match meaningOfRow? switches .empty row with
    | none => none
    | some (p, after) => (meaningOfRows? after rows).map fun q => .alt p q

end

end Written

end Snowbank.Pattern
