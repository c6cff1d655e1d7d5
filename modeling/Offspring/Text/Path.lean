import Offspring.Text.Basic
/-!
# Path texts

A path is a row of pieces between slashes, over any kind of symbol, so that it can
be read both as bytes and as text.  Nothing is looked up: `fileName?` and `push`
work on the symbols alone.

* Empty pieces and single dots name nothing; the file name is the last piece that is
  left, unless that is a double dot.
* Joining replaces the path when the added part starts with a slash; otherwise the
  path gets a slash at its end if it has none, and then the added part.
-/

namespace Offspring

/-- What lies between the places where `sep` stands, in order; one piece more than
there are separators. -/
def pieces {α : Type} [DecidableEq α] (sep : α) : List α → List (List α)
  | [] => [[]]
  | a :: l =>
    if a = sep then [] :: pieces sep l
    else
      match pieces sep l with
      | [] => [[a]]
      | p :: ps => (a :: p) :: ps

/-- The symbols that have a meaning in a path. -/
structure PathSymbols (α : Type) where
  slash : α
  dot : α

namespace PathSymbols

variable {α : Type} [DecidableEq α] (m : PathSymbols α)

/-- Whether a piece names something. -/
def names (p : List α) : Bool :=
  !p.isEmpty && p != [m.dot]

/-- The last component of a path, unless it goes up. -/
def fileName? (path : List α) : Option (List α) :=
  match ((pieces m.slash path).filter m.names).getLast? with
  | none => none
  | some p => if p = [m.dot, m.dot] then none else some p

/-- Whether a path starts at the root. -/
def isAbsolute (path : List α) : Bool :=
  path.head? == some m.slash

/-- A path joined with a further part. -/
def push (path part : List α) : List α :=
  if m.isAbsolute part then part
  else
    match path.getLast? with
    | none => part
    | some a => if a = m.slash then path ++ part else path ++ m.slash :: part

end PathSymbols

/-- Paths as bytes. -/
def bytePath : PathSymbols UInt8 := ⟨0x2F, 0x2E⟩

/-- Paths as text. -/
def textPath : PathSymbols Char := ⟨'/', '.'⟩

example : textPath.fileName? "/bin/sh/.".toList = some "sh".toList ∧
    textPath.fileName? "a/..".toList = none ∧
    textPath.push "a/".toList "b".toList = "a/b".toList := by decide

end Offspring
