import Offspring.Command.Timeline
import Offspring.Machine.Tree
import Offspring.Runner.Launch
/-!
# The machine that programs run on

A program is named by a path, or by a name that is looked for in the folders of
programs.  What cannot be found there or may not be run is not started.  A program that is
started has a folder to work in, nothing to read, and the channels to write to.
-/

namespace Offspring.Machine

/-- The variables that a program gets. -/
def environment : List (Octets × Octets) :=
  [(Octets.of "HOME", Octets.of "/root"), (Octets.of "PATH", Shell.Lookup.usualFolders)]

/-- The path of a program, or why it cannot be started. -/
def pathOf (files : Files) (cwd : List Octets) (name : Octets) : Except FileError Octets :=
  if Shell.Lookup.isPath name then (runnable files cwd name).map fun _ => name
  else go .missing (Shell.Lookup.candidates Shell.Lookup.usualFolders name)
where
  /-- The first path that leads to something that may be run, or else why there is none. -/
  go (e : FileError) : List Octets → Except FileError Octets
    | [] => .error e
    | path :: rest =>
      match runnable files cwd path with
      | .ok _ => .ok path
      | .error .missing => go e rest
      | .error .notFolder => go e rest
      | .error .denied => go .denied rest
      | .error e => .error e

/-- The pid of a program that was started. -/
def firstPid : Nat := 99999

/-- How much is foreseen. -/
def surprises : Nat := 100

/-- The program of a path, with arguments, in a folder. -/
def program (files : Files) (cwd : List Octets) (path : Octets) (args : List Octets) :
    Program := fun breaks =>
  let tell (f : Foresight) : World :=
    let p := { Proc.first files f firstPid cwd with environment := environment }
    match become depth path args p with
    | .ok p => p.world
    | .error _ => p.world
  Performance.ofWorld (World.settled tell surprises ⟨breaks, []⟩) firstPid

/-- The files when a runner has made the log of a program. -/
def logged (pid : Nat) (r : Runner) (files : Files) (name : Text) : Files :=
  match textPath.fileName? name with
  | none => files
  | some command =>
    let path := Octets.ofText (r.logPath pid command)
    match files.make [] (Files.piecesOf path) (.file [] false) with
    | .ok files => files
    | .error _ => files

/-- What is found where a path points, by who works in a folder. -/
def find (files : Files) (cwd : List Octets) (name : Octets) (args : List Octets) :
    Except FileError Program :=
  match pathOf files cwd name with
  | .error e => .error e
  | .ok path => .ok (program files cwd path (name :: args))

/-- The machine, for a supervising process of a pid and one of its runners. -/
def host (pid : Nat) (files : Files) (r : Runner) : Host Program :=
  ⟨pid, fun name args =>
    let files := logged pid r files name
    let cwd := (files.placeOf (Files.piecesOf (Octets.ofText r.dir))).names
    find files cwd (Octets.ofText name) (args.map Octets.ofText)⟩

/-- The machine on which a command of its own stands in for every program. -/
def hostOf (pid : Nat) (p : Program) : Host Program := ⟨pid, fun _ _ => .ok p⟩

end Offspring.Machine
