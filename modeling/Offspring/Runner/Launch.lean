import Offspring.Runner.Workspace
import Offspring.Text.Utf8
/-!
# Starting a program

A runner starts a program in three stages, and the first that fails decides: the
path must name a file, the log must be made, and the program must be found and be
fit to run.  A program that cannot be started leaves an empty log, and nothing is
left when it comes to no log.
-/

namespace Offspring

/-- The machine that programs run on: the pid of the supervising process, and what is
found where a path points. -/
structure Host (α : Type) where
  pid : Nat
  find : Text → List Text → Except FileError α

/-- How far a start came. -/
inductive Launch (α : Type) where
  /-- No log was made. -/
  | unlogged (f : Failure)
  /-- The log was made and is empty, and the program does not run. -/
  | unstarted (log : Text) (f : Failure)
  /-- The log was made and is empty, and the program runs. -/
  | started (log : Text) (program : α)

/-- The name of the log that was made, if it came to one. -/
def Launch.log? {α : Type} : Launch α → Option Text
  | .unlogged _ => none
  | .unstarted log _ => some log
  | .started log _ => some log

/-- What a program is called in the name of its log: the file name of its path, as text. -/
def commandName? (program : Bytes) : Option Text :=
  (bytePath.fileName? program).map Utf8.lossy

/-- Where a runner has the log of a program, if the path of the program names a file. -/
def Runner.logOf? (r : Runner) (process : Nat) (program : Bytes) : Option Text :=
  (commandName? program).map (r.logPath process)

/-- Why a log cannot have a name. -/
def logError? (name : Text) : Option NameError :=
  if name.hasNul then some .nul
  else if nameLimit < name.size then some (.file .tooLong)
  else none

/-- Checks what a program is given, and finds it. -/
def Host.start {α : Type} (h : Host α) (program : Text) (args : List Text) :
    Except StartError α :=
  if program.hasNul || args.any Text.hasNul then .error .nul
  else
    match h.find program args with
    | .ok p => .ok p
    | .error e => .error (.file e)

/-- Starts a program with arguments. -/
def Runner.launch {α : Type} (r : Runner) (h : Host α) (program : Text) (args : List Text) :
    Launch α :=
  match commandName? program.encode with
  | none => .unlogged .noFileName
  | some command =>
    let log := logName h.pid r.id command
    match logError? log with
    | some e => .unlogged (.logfile e)
    | none =>
      match h.start program args with
      | .error e => .unstarted log (.start e)
      | .ok p => .started log p

end Offspring
