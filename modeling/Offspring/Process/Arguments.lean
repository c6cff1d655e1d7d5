import Offspring.Text.Path
import Offspring.Text.Utf8
/-!
# The argument vector

A process starts with a row of byte strings: what it was called as, and its
arguments.  Both are shown as text, with replacement characters where they are not
well formed.
-/

namespace Offspring

/-- The name a process goes by: the file name of what it was called as, all of that
when it has no file name, and nothing when there is no argument vector. -/
def programName : List Bytes → Text
  | [] => []
  | called :: _ => Utf8.lossy ((bytePath.fileName? called).getD called)

/-- The arguments of a process that are still to come. -/
structure Arguments where
  left : List Bytes
  deriving DecidableEq, Repr

namespace Arguments

/-- The arguments in a vector: all but the first entry. -/
def ofVector (argv : List Bytes) : Arguments :=
  ⟨argv.tail⟩

/-- How many arguments are left. -/
def length (a : Arguments) : Nat :=
  a.left.length

/-- Bounds on how many arguments are left. -/
def bounds (a : Arguments) : Nat × Nat :=
  (a.length, a.length)

/-- The next argument and those after it. -/
def next? (a : Arguments) : Option (Text × Arguments) :=
  match a.left with
  | [] => none
  | b :: bs => some (Utf8.lossy b, ⟨bs⟩)

/-- The arguments at every point of going through them, before the first and after
each. -/
def stages (a : Arguments) : List Arguments :=
  go a.left
where
  /-- The stages of a row of arguments. -/
  go : List Bytes → List Arguments
    | [] => [⟨[]⟩]
    | b :: bs => ⟨b :: bs⟩ :: go bs

/-- All arguments that are left, as text. -/
def toList (a : Arguments) : List Text :=
  a.left.map Utf8.lossy

/-- Taking an argument takes it off the row. -/
theorem toList_of_next? {a b : Arguments} {t : Text} (h : a.next? = some (t, b)) :
    a.toList = t :: b.toList ∧ a.length = b.length + 1 := by
  obtain ⟨left⟩ := a
  cases left with
  | nil => simp [next?] at h
  | cons c cs =>
    simp only [next?, Option.some.injEq, Prod.mk.injEq] at h
    obtain ⟨rfl, rfl⟩ := h
    simp [toList, length]

end Arguments

end Offspring
