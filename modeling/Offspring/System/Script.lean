import Offspring.System.Errno
import Offspring.System.Stdout
import Offspring.System.WaitStatus
/-!
# A scripted system

The system that a process runs on is given by what its calls return, one list of
replies for each of the three calls.  Every call takes the next reply of its list.
When a list is used up, a fork fails as a call that does not exist, a wait fails
for want of children, and a sleep runs to its end.
-/

namespace Offspring

/-- What a fork returns. -/
inductive ForkReply where
  /-- The pid of the new process to its parent, and zero to the new process. -/
  | returned (pid : Pid)
  /-- The call failed. -/
  | failed (errno : Int)
  deriving DecidableEq, Repr

/-- What a wait returns. -/
inductive WaitReply where
  /-- The pid reported on, zero for none, and a raw status. -/
  | returned (pid : Pid) (raw : Int)
  /-- The call failed. -/
  | failed (errno : Int)
  deriving DecidableEq, Repr

/-- The replies of a system to the calls of one process. -/
structure Script where
  forks : List ForkReply
  waits : List WaitReply
  /-- The whole seconds after which a signal interrupts each sleep, if they are
  fewer than the sleep asks for. -/
  sleeps : List Nat
  deriving DecidableEq, Repr

/-- A call that a process makes. -/
inductive Request where
  | fork
  /-- A wait for a process, without options. -/
  | waitpid (pid : Pid)
  | sleep (secs nanos : Nat)
  deriving DecidableEq, Repr

/-- A call, and how many bytes of output had been written before it. -/
structure Call where
  request : Request
  written : Nat
  deriving DecidableEq, Repr

/-- A process on a scripted system: what the system will reply, and the output. -/
structure System where
  script : Script
  out : Stdout
  deriving DecidableEq, Repr

/-- What an operation did: its result, the calls it made in order, and the system
that it leaves. -/
structure Did (α : Type) where
  result : α
  calls : List Call
  after : System

namespace System

/-- A system at the start of a process. -/
def start (script : Script) : System :=
  ⟨script, .empty⟩

/-- Prints a text. -/
def print (s : System) (t : Text) : System :=
  { s with out := s.out.print t }

/-- Writes what is pending. -/
def flush (s : System) : System :=
  { s with out := s.out.flush }

/-- The call made now. -/
def call (s : System) (r : Request) : Call :=
  ⟨r, s.out.bytesWritten⟩

end System

/-- The next reply to a fork, and the rest. -/
def Script.nextFork (s : Script) : ForkReply × Script :=
  match s.forks with
  | [] => (.failed Errno.noSuchCall, s)
  | r :: rs => (r, { s with forks := rs })

end Offspring
