import Offspring.Process.ExitStatus
import Offspring.System.Script
/-!
# Waiting for a child

A wait is repeated until a reply decides it.  An interruption, a reply that no
child has changed, and a report that a child was stopped or resumed decide
nothing.  A failure, a status that cannot be read, and the end of a process do, and
the end of another process than the one waited for is a fault of the program.
-/

namespace Offspring

/-- How waiting for a process ends. -/
inductive WaitEnd where
  /-- The process ended. -/
  | status (s : ExitStatus)
  /-- The wait failed. -/
  | error (e : OsError)
  /-- Another process ended: the program panics. -/
  | otherProcess
  /-- The raw status is no wait status: the program panics. -/
  | noStatus
  deriving DecidableEq, Repr

namespace WaitEnd

/-- Whether the program panics. -/
def panics : WaitEnd → Bool
  | .otherProcess | .noStatus => true
  | _ => false

/-- What a panic says, where that is fixed. -/
def panicMessage? : WaitEnd → Option Text
  | .otherProcess =>
    some "The waited process ID does not match the target process ID".toList
  | _ => none

end WaitEnd

/-- What one reply means to a process that waits. -/
inductive Verdict where
  /-- It decides nothing: wait again. -/
  | again
  /-- It ends the wait. -/
  | ends (e : WaitEnd)
  deriving DecidableEq, Repr

/-- The end of process `pid` ends the wait for `target`. -/
def Verdict.ended (target pid : Pid) (s : ExitStatus) : Verdict :=
  .ends (if pid = target then .status s else .otherProcess)

/-- What a reply means to a process that waits for `target`. -/
def WaitReply.judge (target : Pid) : WaitReply → Verdict
  | .failed errno =>
    if errno = Errno.interrupted then .again else .ends (.error (.ofErrno errno))
  | .returned pid raw =>
    if pid = 0 then .again
    else
      match Report.decode raw with
      | .ok (.exited code) => .ended target pid ⟨code⟩
      | .ok (.killed signal) => .ended target pid (.ofSignal signal)
      | .ok (.stopped _) => .again
      | .ok .traced => .again
      | .ok .continued => .again
      | .error .unknownSignal => .ends (.error .invalidInput)
      | .error .noStatus => .ends .noStatus

/-- Waits for `target` on a list of replies: how it ends, how many calls it takes,
and the replies that are left. -/
def waitOn (target : Pid) : List WaitReply → WaitEnd × Nat × List WaitReply
  | [] => (.error (.ofErrno Errno.noChild), 1, [])
  | r :: rs =>
    match r.judge target with
    | .again => let (e, calls, rest) := waitOn target rs; (e, calls + 1, rest)
    | .ends e => (e, 1, rs)

/-- Waits for a process. -/
def System.waitPid (s : System) (target : Pid) : Did WaitEnd :=
  let (e, calls, rest) := waitOn target s.script.waits
  ⟨e, List.replicate calls (s.call (.waitpid target)),
    { s with script := { s.script with waits := rest } }⟩

end Offspring
