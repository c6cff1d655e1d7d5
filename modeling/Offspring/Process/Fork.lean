import Offspring.System.Script
/-!
# Forking

A fork duplicates the process.  Pending output is written first, also when the call
then fails: otherwise both processes would write it.  The call is made once; no
failure is tried again.
-/

namespace Offspring

/-- What a process holds after a fork. -/
inductive Handle where
  /-- It is the one that forked, and this is its child. -/
  | parent (child : Pid)
  /-- It is the new one. -/
  | child
  deriving DecidableEq, Repr

/-- Which side of a fork a process is on. -/
inductive Role where
  | main
  | child
  deriving DecidableEq, Repr

namespace Handle

/-- Whether the process is the one that forked. -/
def isParent : Handle → Bool
  | parent _ => true
  | child => false

/-- The pid of the child. -/
def child? : Handle → Option Pid
  | parent pid => some pid
  | child => none

/-- The side of the fork. -/
def role : Handle → Role
  | parent _ => .main
  | child => .child

end Handle

/-- How a role is called. -/
def Role.label : Role → Text
  | .main => "Main Process".toList
  | .child => "Child Process".toList

/-- What a reply to a fork means. -/
def ForkReply.handle : ForkReply → Except OsError Handle
  | .returned pid => .ok (if pid = 0 then .child else .parent pid)
  | .failed errno => .error (.ofErrno errno)

/-- Forks the process. -/
def System.fork (s : System) : Did (Except OsError Handle) :=
  let s := s.flush
  let (reply, script) := s.script.nextFork
  ⟨reply.handle, [s.call .fork], { s with script }⟩

end Offspring
