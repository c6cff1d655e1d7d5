import Offspring.Text.Basic
/-!
# Lines of a text

A line ends at a newline, and one carriage return right before the newline is not
part of it.  What follows the last newline is a line too unless it is empty, and
keeps its carriage return.
-/

namespace Offspring.Text

/-- The line that a newline ends, given its characters last first. -/
def endLine : Text → Text
  | '\r' :: t => t.reverse
  | t => t.reverse

/-- The lines of `t`, when the characters `seen` of its first line have been read
already and are held last first. -/
def linesFrom (seen : Text) : Text → List Text
  | [] => if seen.isEmpty then [] else [seen.reverse]
  | c :: t => if c = '\n' then endLine seen :: linesFrom [] t else linesFrom (c :: seen) t

/-- The lines of a text. -/
def lines (t : Text) : List Text :=
  linesFrom [] t

/-- Whether every one of some lines is a line of the text. -/
def hasLines (expected : List Text) (t : Text) : Bool :=
  expected.all fun l => (lines t).contains l

example : lines "a\r\nb\n\nc\r".toList =
    ["a".toList, "b".toList, [], "c\r".toList] := by decide

end Offspring.Text
