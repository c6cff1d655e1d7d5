/-!
# Exit statuses

The code of a process that exited is its exit code, and that of a process killed
by signal `n` is `128 + n`.
-/

namespace Offspring

/-- How a child ended, as one code. -/
structure ExitStatus where
  code : Int
  deriving DecidableEq, Repr

namespace ExitStatus

/-- The status of a process that did what it was asked. -/
def ok : ExitStatus := ⟨0⟩

/-- Whether the process did what it was asked. -/
def success (s : ExitStatus) : Bool :=
  s.code == 0

/-- The status of a process killed by a signal. -/
def ofSignal (n : Int) : ExitStatus :=
  ⟨128 + n⟩

end ExitStatus

end Offspring
