import Offspring.Process.Fork
import Offspring.Process.Sleep
import Offspring.Process.Wait
/-!
# Programs of process steps

A process prints, forks, waits and sleeps in any order, on either side of its forks.
The handles of the forks that succeeded are kept in a table in order, and a step
names a handle by its place there.
-/

namespace Offspring

/-- One step of a process. -/
inductive Step where
  | print (t : Text)
  | fork
  /-- Waits for the child of a handle. -/
  | wait (handle : Nat)
  /-- Waits for any process. -/
  | waitPid (pid : Pid)
  | sleep (d : Duration)
  deriving DecidableEq, Repr

/-- What a step says. -/
inductive Answer where
  | done
  /-- The fork succeeded, and its handle has this place in the table. -/
  | forked (place : Nat) (h : Handle)
  | forkFailed (e : OsError)
  | waited (e : WaitEnd)
  /-- The table has no such handle, or it has no child. -/
  | noChildHandle
  deriving DecidableEq, Repr

/-- A process on a scripted system, between steps. -/
structure Scripted where
  system : System
  handles : List Handle
  deriving DecidableEq, Repr

namespace Scripted

/-- A process on a scripted system before its first step. -/
def start (script : Script) : Scripted :=
  ⟨.start script, []⟩

/-- Waits for a pid. -/
def waitFor (p : Scripted) (pid : Pid) : Answer × List Call × Scripted :=
  let did := p.system.waitPid pid
  (.waited did.result, did.calls, { p with system := did.after })

/-- One step: what it says, the calls it makes, and the process after it. -/
def step (p : Scripted) : Step → Answer × List Call × Scripted
  | .print t => (.done, [], { p with system := p.system.print t })
  | .fork =>
    let did := p.system.fork
    match did.result with
    | .ok h => (.forked p.handles.length h, did.calls, ⟨did.after, p.handles ++ [h]⟩)
    | .error e => (.forkFailed e, did.calls, { p with system := did.after })
  | .wait k =>
    match p.handles[k]? with
    | some (.parent pid) => p.waitFor pid
    | _ => (.noChildHandle, [], p)
  | .waitPid pid => p.waitFor pid
  | .sleep d =>
    let did := p.system.sleep d
    (.done, did.calls, { p with system := did.after })

/-- A row of steps: what each says with the calls it makes, and the process after
them. -/
def run (p : Scripted) : List Step → List (Answer × List Call) × Scripted
  | [] => ([], p)
  | s :: steps =>
    let (answer, calls, p) := p.step s
    let (answers, p) := p.run steps
    ((answer, calls) :: answers, p)

/-- Everything the process has printed. -/
def printed (p : Scripted) : Text :=
  p.system.out.printed

end Scripted

/-- Ends a process: what is pending is written, and the system keeps the low byte of
the status. -/
def Stdout.exit (o : Stdout) (status : Int) : Int × Stdout :=
  (exitByte status, o.flush)

end Offspring
