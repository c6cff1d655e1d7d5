import Offspring.Runner.Failure
import Offspring.Text.Decimal
import Offspring.Text.Path
/-!
# Runners and their directories

A runner has a number and a directory of its own to run programs in.  The directory
is named after a package, a module and a test; the pieces of the module path become
components.  Numbers are given in the order in which runners are asked for, also to
those whose directory cannot be made.

Every program that a runner starts has a log in the directory, named after the
supervising process, the number of the runner and the program.
-/

namespace Offspring

/-- Where the directories of runners are. -/
structure Site where
  /-- The directory of the project. -/
  root : Text
  /-- How the programs were built. -/
  profile : Text
  deriving DecidableEq, Repr

/-- The pieces of a module path between double colons, taken from the left. -/
def modulePieces : Text → List Text
  | [] => [[]]
  | ':' :: ':' :: t => [] :: modulePieces t
  | c :: t =>
    match modulePieces t with
    | [] => [[c]]
    | p :: ps => (c :: p) :: ps

/-- The components that a package, a module and a test give a directory. -/
def workspaceParts (pkg module test : Text) : List Text :=
  pkg :: modulePieces module ++ [test]

namespace Site

/-- The directory under which all others are. -/
def base (s : Site) : Text :=
  ["target".toList, "fixture".toList, s.profile].foldl textPath.push s.root

/-- The directory of a test. -/
def workspace (s : Site) (pkg module test : Text) : Text :=
  (workspaceParts pkg module test).foldl textPath.push s.base

/-- A directory as seen from the project, or whole when it lies elsewhere. -/
def shown (s : Site) (dir : Text) : Text :=
  let inside := s.root ++ ['/']
  if inside.isPrefixOf dir then dir.drop inside.length else dir

end Site

/-- Who runs programs in a directory. -/
structure Runner where
  id : Nat
  dir : Text
  deriving DecidableEq, Repr

/-- The runners of a process: the number of the next one, and the files that those
before have left. -/
structure Runners where
  next : Nat
  files : Files

namespace Runners

/-- How many numbers there are.  After the last of them they start again. -/
def numbers : Nat := 18446744073709551616

/-- No runner yet. -/
def start (files : Files) : Runners := ⟨0, files⟩

/-- Takes the next number. -/
def take (r : Runners) : Nat × Runners :=
  (r.next, { r with next := (r.next + 1) % numbers })

/-- Makes a directory and those on the way to it. -/
def make (files : Files) (dir : Text) : Except NameError Unit × Files :=
  if dir.hasNul then (.error .nul, files)
  else
    match files.makeAll (Octets.ofText dir) with
    | (.ok (), files) => (.ok (), files)
    | (.error e, files) => (.error (.file e), files)

/-- Makes the directory of a runner that has its number. -/
def prepare (r : Runners) (runner : Runner) : Except Failure Runner × Runners :=
  match make r.files runner.dir with
  | (.error e, files) => (.error (.workspace e), { r with files })
  | (.ok (), files) => (.ok runner, { r with files })

/-- Asks for a runner. -/
def create (r : Runners) (s : Site) (pkg module test : Text) :
    Except Failure Runner × Runners :=
  let (id, r) := r.take
  r.prepare ⟨id, s.workspace pkg module test⟩

/-- Asks for the runners of several tests of one module. -/
def createAll (r : Runners) (s : Site) (pkg module : Text) :
    List Text → List (Except Failure Runner) × Runners
  | [] => ([], r)
  | test :: tests =>
    let (made, r) := r.create s pkg module test
    let (all, r) := r.createAll s pkg module tests
    (made :: all, r)

end Runners

/-- The name of a log, given how the process and the runner are written. -/
def logNameOf (process runner command : Text) : Text :=
  "fixture.".toList ++ process ++ ['.'] ++ runner ++ ['.'] ++ command ++ ".out".toList

/-- The name of the log of a command. -/
def logName (process runner : Nat) (command : Text) : Text :=
  logNameOf (Decimal.ofNat process) (Decimal.ofNat runner) command

/-- Where the log of a command is. -/
def Runner.logPath (r : Runner) (process : Nat) (command : Text) : Text :=
  textPath.push r.dir (logName process r.id command)

end Offspring
