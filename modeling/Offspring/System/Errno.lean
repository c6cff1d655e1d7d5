import Offspring.Text.Decimal
/-!
# Failed system calls

A failed call leaves an error number.  Numbers that the system does not define
count as zero, seven of the rest have a name of their own here, and every other
one keeps its number.
-/

namespace Offspring

/-- Why a system call failed. -/
inductive OsError where
  /-- Error number 1. -/
  | notPermitted
  /-- Error number 3. -/
  | processNotFound
  /-- Error number 4. -/
  | interrupted
  /-- Error number 10. -/
  | noChildProcess
  /-- Error number 11. -/
  | resourceTemporarilyUnavailable
  /-- Error number 12. -/
  | outOfMemory
  /-- Error number 22. -/
  | invalidInput
  /-- Any other error number. -/
  | unknown (errno : Int)
  deriving DecidableEq, Repr

namespace OsError

/-- Whether the system defines an error number. -/
def isDefined (n : Int) : Bool :=
  1 ≤ n && n ≤ 133 && n != 41 && n != 58

/-- The error that a number stands for, when the system defines it. -/
def named : Int → OsError
  | 1 => notPermitted
  | 3 => processNotFound
  | 4 => interrupted
  | 10 => noChildProcess
  | 11 => resourceTemporarilyUnavailable
  | 12 => outOfMemory
  | 22 => invalidInput
  | n => unknown n

/-- The error that any number stands for. -/
def ofErrno (n : Int) : OsError :=
  if isDefined n then named n else unknown 0

/-- What an error says. -/
def message : OsError → Text
  | notPermitted => "operation not permitted".toList
  | processNotFound => "no such process".toList
  | interrupted => "interrupted system call".toList
  | noChildProcess => "no child process".toList
  | resourceTemporarilyUnavailable => "resource temporarily unavailable".toList
  | outOfMemory => "cannot allocate memory".toList
  | invalidInput => "invalid argument".toList
  | unknown n => "unknown error (errno ".toList ++ Decimal.ofInt n ++ ")".toList

/-- The number that an error keeps because it has no name of its own. -/
def errno? : OsError → Option Int
  | unknown n => some n
  | _ => none

end OsError

/-- The error number of a call that the system does not have. -/
def Errno.noSuchCall : Int := 38

/-- The error number of waiting without a child. -/
def Errno.noChild : Int := 10

/-- The error number of a call that a signal interrupted. -/
def Errno.interrupted : Int := 4

/-- The error number of waiting for a process that does not exist. -/
def Errno.noProcess : Int := 3

end Offspring
