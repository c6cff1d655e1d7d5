import Offspring.Command.Opening
import Offspring.Command.Options
import Offspring.Text.Quoting
/-!
# What utilities have in common

A utility is a program with a name and arguments.  It complains on standard error under
its name, and ends with a status.
-/

namespace Offspring

/-- A program that a machine has: what a process does under a name with arguments. -/
abbrev Utility := Octets → List Octets → Proc → Proc

namespace Proc

/-- Ends with a status. -/
def exit (p : Proc) (status : Nat) : Proc :=
  p.finish (.exit status)

/-- Writes a line to standard error. -/
def complain (p : Proc) (name message : Octets) : Proc :=
  (p.write 2 (name ++ Octets.of ": " ++ message ++ ['\n'])).2

/-- Says where help is to be found. -/
def hint (p : Proc) (name : Octets) (status : Nat) : Proc :=
  (p.write 2 (Octets.of "Try '" ++ name ++ Octets.of " --help' for more information.\n")).2.exit
    status

/-- Complains about how it was called, and ends. -/
def misuse (p : Proc) (name message : Octets) (status : Nat) : Proc :=
  (p.complain name message).hint name status

/-- Writes to standard output; a write that fails ends the process, which says why. -/
def putSaying (said : String) (p : Proc) (name t : Octets) : Proc :=
  let fail (p : Proc) (why : String) : Proc :=
    (p.complain name (Octets.of (said ++ ": " ++ why))).exit 1
  match p.write 1 t with
  | (.fully, p) => p
  | (.closed, p) => fail p "Bad file descriptor"
  | (.noRoom, p) => fail p "No space left on device"
  | (.broken, p) => if p.runs then fail p "Broken pipe" else p

/-- Writes to standard output. -/
def put (p : Proc) (name t : Octets) : Proc :=
  p.putSaying "write error" name t

/-- Writes to standard output and ends with a status. -/
def say (p : Proc) (name t : Octets) (status : Nat) : Proc :=
  (p.put name t).exit status

/-- All that a file has, or standard input for a dash. -/
def input (p : Proc) (path : Octets) : Except String (Octets × Proc) :=
  if path = ['-'] then
    match p.readAll 0 with
    | (.bytes t, p) => .ok (t, p)
    | (.nothing, p) => .ok ([], p)
    | (.closed, _) => .error "Bad file descriptor"
    | (.folder, _) => .error FileError.folder.text
  else
    match p.readFile path with
    | .ok r => .ok r
    | .error e => .error e.text

end Proc

namespace Utility

/-- Reads the options of a utility, or complains and ends with a status. -/
def withOptions (status : Nat) (forms : List OptionForm) (inOrder : Bool)
    (run : Octets → Given → Proc → Proc) : Utility :=
  fun name args p =>
    match Given.read forms inOrder args with
    | .error e => p.misuse name e status
    | .ok g => run name g p

/-- The lines of a text with their ends. -/
def linesOf (t : Octets) : List Octets :=
  go [] t
where
  /-- The lines when the first characters are held, last first. -/
  go (seen : Octets) : Octets → List Octets
    | [] => if seen.isEmpty then [] else [seen.reverse]
    | c :: t => if c = '\n' then ('\n' :: seen).reverse :: go [] t else go (c :: seen) t

/-- A line without its end. -/
def bare (l : Octets) : Octets :=
  if l.getLast? = some '\n' then l.dropLast else l

/-- A line with an end. -/
def ended (l : Octets) : Octets :=
  bare l ++ ['\n']

/-- A whole number without a sign, if a text is one. -/
def nat? (t : Octets) : Option Nat :=
  if !t.isEmpty && t.all Char.isDigit then some (Decimal.value t) else none

/-- A number in the last of so many places. -/
def right (width : Nat) (t : Octets) : Octets :=
  List.replicate (width - t.length) ' ' ++ t

end Utility

end Offspring
