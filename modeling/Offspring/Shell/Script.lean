import Offspring.Text.Octets
/-!
# Commands of a script

What a script of the shell means once it is read: words with their quotes and
substitutions, redirections, and commands built from simple ones.
-/

namespace Offspring.Shell

mutual

/-- A piece of a word. -/
inductive Piece where
  /-- Text outside quotes. -/
  | plain (t : Octets)
  /-- Text that stands for itself. -/
  | quoted (t : Octets)
  /-- What stands in double quotes. -/
  | group (ps : List Piece)
  /-- A parameter. -/
  | param (name : Octets) (m : Modifier)
  /-- What a command writes. -/
  | output (c : Option Command)
  /-- The value of an expression. -/
  | value (ps : List Piece)

/-- What is done with the value of a parameter.  With a colon, empty counts as unset. -/
inductive Modifier where
  | none
  /-- There is no such form. -/
  | unknown
  | length
  /-- The word instead of no value. -/
  | orElse (colon : Bool) (w : List Piece)
  /-- The word becomes the value if there is none. -/
  | orSet (colon : Bool) (w : List Piece)
  /-- Without a value the shell ends and says the word. -/
  | orFail (colon : Bool) (w : List Piece)
  /-- The word instead of a value. -/
  | andThen (colon : Bool) (w : List Piece)
  /-- Without what a pattern matches at one end. -/
  | without (atEnd longest : Bool) (w : List Piece)

/-- Where a descriptor is to lead. -/
inductive Target where
  /-- A file for writing, empty; a file that is there is not kept if `force`. -/
  | write (force : Bool) (w : List Piece)
  /-- A file for writing at its end. -/
  | append (w : List Piece)
  | read (w : List Piece)
  | readWrite (w : List Piece)
  /-- Where another descriptor leads, or nowhere. -/
  | copy (w : List Piece)
  /-- A text of the script, by its number. -/
  | here (n : Nat)

/-- A redirection. -/
inductive Redirect where
  | mk (fd : Nat) (target : Target)

/-- A command; lines are those of the script. -/
inductive Command where
  | simple (line : Nat) (assigned : List (Octets × List Piece)) (words : List (List Piece))
      (rs : List Redirect)
  | pipeline (stages : List Command) (background : Bool)
  | redirected (line : Nat) (c : Command) (rs : List Redirect)
  | subshell (line : Nat) (c : Command) (rs : List Redirect)
  | background (line : Nat) (c : Command) (rs : List Redirect)
  | both (a b : Command)
  | either (a b : Command)
  | sequence (a b : Command)
  | negation (c : Command)
  | conditional (test yes : Command) (no : Option Command)
  | loop (stopsAt : Bool) (test body : Command)
  | each (line : Nat) (name : Octets) (words : List (List Piece)) (body : Command)
  | choice (line : Nat) (w : List Piece)
      (clauses : List (List (List Piece) × Option Command))
  | function (line : Nat) (name : Octets) (body : Command)

end

/-- A word of a command. -/
abbrev Word := List Piece

/-- A digit or a letter, or an underscore. -/
def isNameChar (c : Char) : Bool :=
  c.isAlphanum || c = '_'

/-- Whether a byte string can name a parameter. -/
def isName : Octets → Bool
  | [] => false
  | c :: t => isNameChar c && !c.isDigit && t.all isNameChar

/-- The name before the sign of an assignment, if a word starts with one, and the value. -/
def assignment? : Word → Option (Octets × Word)
  | .plain t :: ps =>
    let name := t.takeWhile isNameChar
    match t.drop name.length with
    | '=' :: rest =>
      if isName name then
        some (name, if rest.isEmpty then ps else .plain rest :: ps)
      else none
    | _ => none
  | _ => none

/-- A character in front of a row of pieces. -/
def consPlain (c : Char) : List Piece → List Piece
  | .plain t :: ps => .plain (c :: t) :: ps
  | ps => .plain [c] :: ps

end Offspring.Shell
