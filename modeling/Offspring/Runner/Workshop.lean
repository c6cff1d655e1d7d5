import Offspring.Runner.Launch
/-!
# Starting programs among files

A start changes the files that a runner works with: the log is made, or emptied if it is there
already, before the program is looked for, and it stays when the program cannot be started.  What
is found where a path points depends on the files as they are then.

`Runner.launch` tells by names alone how far a start comes; `Workshop.launch` carries it out.
-/

namespace Offspring

/-- The files of a machine, and the programs that were started on it, in order. -/
structure Workshop (α : Type) where
  files : Files
  started : List α

/-- What a start gives: the program, or why there is none. -/
def Launch.result {α : Type} : Launch α → Except Failure α
  | .unlogged f => .error f
  | .unstarted _ f => .error f
  | .started _ p => .ok p

/-- Makes the log of a command, or empties the one that is there. -/
def Runner.openLog (r : Runner) (pid : Nat) (command : Text) (files : Files) :
    Except NameError Files :=
  let path := r.logPath pid command
  if path.hasNul then .error .nul
  else
    match files.create [] (Octets.ofText path) with
    | .error e => .error (.file e)
    | .ok files => .ok files

/-- Starts a program with arguments, for a supervising process of a pid. -/
def Workshop.launch {α : Type} (w : Workshop α) (r : Runner) (pid : Nat)
    (find : Files → Text → List Text → Except FileError α) (program : Text)
    (args : List Text) : Except Failure α × Workshop α :=
  match commandName? program.encode with
  | none => (.error .noFileName, w)
  | some command =>
    match r.openLog pid command w.files with
    | .error e => (.error (.logfile e), w)
    | .ok files =>
      match Host.start ⟨pid, find files⟩ program args with
      | .error e => (.error (.start e), { w with files })
      | .ok p => (.ok p, ⟨files, w.started ++ [p]⟩)

end Offspring
