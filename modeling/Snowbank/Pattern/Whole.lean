import Snowbank.Pattern.Meaning
import Snowbank.Pattern.Parser
import Snowbank.Pattern.Room

/-!
# Matching Whole Texts

A pattern, given as text, is matched against a whole text by putting it
between the two anchors. What is not well formed, is nested too deep or takes
too much room is no pattern.
-/

namespace Snowbank.Pattern

/-- How deep a pattern may be nested. -/
def maxDepth : Nat := 250

def ofText? (text : String) : Option Pattern :=
  match rows? text with
  | none => none
  | some rows =>
    if Written.depthOfRows rows > maxDepth then none
    else
      match Written.meaningOfRows? [.allScripts] rows with
      | none => none
      | some p => if p.room > maxRoom then none else some p

/-- The pattern matches the whole text. What is not a pattern matches nothing. -/
def matchesWhole (pattern text : String) : Bool :=
  match ofText? ("^(?:" ++ pattern ++ ")$") with
  | some p => p.occursIn text
  | none => false

end Snowbank.Pattern
