import Offspring.Process.Steps
/-!
# A process with real children

Here the system keeps the children itself.  A child runs to its end as soon as it is
made: it writes its text after all that its parent had printed, and then exits or is
killed.  What is left of it waits to be reaped, once, by a wait that it matches.
-/

namespace Offspring

/-- What a child does in its life. -/
inductive Deed where
  /-- It prints a text and exits. -/
  | exits (status : Int) (text : Text)
  /-- A signal kills it before it has written anything. -/
  | killed (signal : Int)
  deriving DecidableEq, Repr

/-- How a child that does this ends. -/
def Deed.death : Deed → Death
  | exits status _ => .exit status
  | killed signal => .signal signal

/-- What a child that does this writes. -/
def Deed.text : Deed → Text
  | exits _ text => text
  | killed _ => []

/-- A child that has ended and was not reaped. -/
structure Ended where
  pid : Pid
  death : Death
  deriving DecidableEq, Repr

/-- One step of a process with children. -/
inductive FamilyStep where
  | print (t : Text)
  /-- Forks; the child does the deed. -/
  | fork (deed : Deed)
  | wait (handle : Nat)
  | waitPid (pid : Pid)
  deriving DecidableEq, Repr

/-- A process, its children that were not reaped, and the handles it has. -/
structure Family where
  out : Stdout
  ended : List Ended
  handles : List Handle
  deriving DecidableEq, Repr

namespace Family

/-- A process without children. -/
def start : Family := ⟨.empty, [], []⟩

/-- Children get pids of more than 32 bits, so that a step that names a pid by number
names none of them. -/
def firstPid : Pid := 2147483648

/-- The pid that no process can have, not even its negative. -/
def noPid : Pid := -2147483648

/-- Whether a wait for `target` may reap a child. -/
def matchesChild (target : Pid) (c : Ended) : Bool :=
  target = c.pid || target = -1 || target = 0

/-- What a wait for `target` gets, reply after reply. -/
def replies (f : Family) (target : Pid) : List WaitReply :=
  if target = noPid then [.failed Errno.noProcess]
  else (f.ended.filter (matchesChild target)).map fun c => .returned c.pid c.death.raw

/-- The children that are left after `n` replies to a wait for `target`. -/
def leftAfter (f : Family) (target : Pid) (n : Nat) : List Ended :=
  let reaped := (f.ended.filter (matchesChild target)).take n
  f.ended.filter fun c => !reaped.contains c

/-- Waits for a pid. -/
def waitFor (f : Family) (target : Pid) : Answer × Family :=
  let (e, calls, _) := waitOn target (f.replies target)
  (.waited e, { f with ended := f.leftAfter target calls })

/-- Forks a child that does a deed. -/
def fork (f : Family) (deed : Deed) : Answer × Family :=
  let pid := firstPid + f.handles.length
  let out := f.out.flush
  (.forked f.handles.length (.parent pid),
    { out := { out with written := out.written ++ deed.text },
      ended := f.ended ++ [⟨pid, deed.death⟩],
      handles := f.handles ++ [.parent pid] })

/-- One step. -/
def step (f : Family) : FamilyStep → Answer × Family
  | .print t => (.done, { f with out := f.out.print t })
  | .fork deed => f.fork deed
  | .wait k =>
    match f.handles[k]? with
    | some (.parent pid) => f.waitFor pid
    | _ => (.noChildHandle, f)
  | .waitPid pid => f.waitFor pid

/-- A row of steps: what each says, and the family after them. -/
def run (f : Family) : List FamilyStep → List Answer × Family
  | [] => ([], f)
  | s :: steps =>
    let (answer, f) := f.step s
    let (answers, f) := f.run steps
    (answer :: answers, f)

/-- Everything the process and its children have printed. -/
def printed (f : Family) : Text :=
  f.out.printed

end Family

end Offspring
