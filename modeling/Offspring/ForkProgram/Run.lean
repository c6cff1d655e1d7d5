import Offspring.Process.Arguments
import Offspring.Process.Diagnostic
import Offspring.Process.Steps
import Offspring.Text.Operand
/-!
# The fork program

The program takes one operand, a number of seconds.  It forks, and on both sides
says which side it is and how long it will sleep, in one line, and sleeps.  The child
then exits; the parent waits for it and tells of a wait that fails or a child that
does not succeed.  Without exactly one operand it prints its usage and gives up.
-/

namespace Offspring.ForkProgram

/-- How a process of the program ends. -/
inductive Finish where
  | exited (status : Int)
  | panicked
  deriving DecidableEq, Repr

/-- What a run leaves. -/
structure Record where
  finish : Finish
  stdout : Text
  stderr : Text
  calls : List Call
  deriving DecidableEq, Repr

/-- How many operands the program takes. -/
def operandCount : Nat := 1

/-- The complaint about a wrong number of operands.  It goes to standard output, and
does not use the name that the program was called by. -/
def usage (given : Nat) : Text :=
  "fork: expected ".toList ++ Decimal.ofNat operandCount ++ " parameter, given ".toList ++
    Decimal.ofNat given ++ "\n".toList

/-- The line that a process prints before it sleeps. -/
def roleLine (r : Role) (secs : Int) : Text :=
  r.label ++ ": sleeping ".toList ++ Decimal.ofInt secs ++ " seconds\n".toList

/-- How long a process sleeps: not at all for a negative number. -/
def duration (secs : Int) : Duration :=
  ⟨secs.toNat, 0⟩

/-- What the program says of a fork that failed. -/
def forkFailed (name : Text) (e : OsError) : Text :=
  Diagnostic.line name (Diagnostic.because "fork child process failed".toList e.message)

/-- What the program says of a wait that failed. -/
def waitFailed (name : Text) (e : OsError) : Text :=
  Diagnostic.line name (Diagnostic.because "wait child process failed".toList e.message)

/-- What the program says of a child that did not succeed. -/
def childFailed (name : Text) (child : Pid) (s : ExitStatus) : Text :=
  Diagnostic.line name ("child process ".toList ++ Decimal.ofInt child ++
    " exited with status ".toList ++ Decimal.ofInt s.code)

/-- How the parent ends after its wait, and what it says on standard error. -/
def conclude (name : Text) (child : Pid) : WaitEnd → Finish × Text
  | .status s =>
    if s.success then (.exited success, []) else (.exited failure, childFailed name child s)
  | .error e => (.exited failure, waitFailed name e)
  | .otherProcess => (.panicked, [])
  | .noStatus => (.panicked, [])

/-- One side of the fork, from its line to its end. -/
def afterFork (name : Text) (secs : Int) (h : Handle) (s : System) : Record :=
  let slept := (s.print (roleLine h.role secs)).sleep (duration secs)
  match h with
  | .child => ⟨.exited success, slept.after.flush.out.written, [], slept.calls⟩
  | .parent child =>
    let waited := slept.after.waitPid child
    let (finish, complaint) := conclude name child waited.result
    ⟨finish, waited.after.flush.out.written, complaint, slept.calls ++ waited.calls⟩

/-- The program from its fork on. -/
def fromFork (name : Text) (secs : Int) (s : System) : Record :=
  let forked := s.fork
  match forked.result with
  | .error e =>
    ⟨.exited failure, forked.after.flush.out.written, forkFailed name e, forked.calls⟩
  | .ok h =>
    let rest := afterFork name secs h forked.after
    { rest with calls := forked.calls ++ rest.calls }

/-- The whole program, called with an argument vector on a scripted system. -/
def run (argv : List Bytes) (script : Script) : Record :=
  let s := System.start script
  match (Arguments.ofVector argv).toList with
  | [operand] => fromFork (programName argv) (Operand.leadingInt operand) s
  | operands => ⟨.exited failure, (s.print (usage operands.length)).flush.out.written, [], []⟩

end Offspring.ForkProgram
