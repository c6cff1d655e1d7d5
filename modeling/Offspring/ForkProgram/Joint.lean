import Offspring.ForkProgram.Run
import Offspring.Text.Lines
/-!
# A joint run of both processes

One order in which both processes of the fork program can run, as a function: first
the child, on a system whose fork returns zero to it, and then the parent, on a system
that reports to it how the child ended.
-/

namespace Offspring.ForkProgram

/-- The sleeps among some calls. -/
def sleepsOf (calls : List Call) : List Request :=
  calls.filterMap fun c =>
    match c.request with
    | .sleep secs nanos => some (.sleep secs nanos)
    | _ => none

/-- What runs of both processes leave; there is no child without a fork. -/
structure Joint where
  child : Option Record
  parent : Record
  deriving DecidableEq, Repr

namespace Joint

/-- The pid that the child gets. -/
def pid : Pid := 2

/-- How a process of the program died, as its parent learns. -/
def deathOf (r : Record) : Death :=
  match r.finish with
  | .exited status => .exit status
  | .panicked => .exit failure

/-- Runs both processes. -/
def run (argv : List Bytes) : Joint :=
  let child := ForkProgram.run argv ⟨[.returned 0], [], []⟩
  let parent := ForkProgram.run argv
    ⟨[.returned pid], [.returned pid (deathOf child).raw], []⟩
  ⟨if parent.calls.isEmpty then none else some child, parent⟩

/-- What each process leaves. -/
def records (j : Joint) : List Record :=
  j.child.toList ++ [j.parent]

/-- The order of texts by their characters. -/
def precedes : Text → Text → Bool
  | [], _ => true
  | _ :: _, [] => false
  | c :: s, d :: t => c < d || (c = d && precedes s t)

/-- The lines that either process has written, sorted. -/
def lines (j : Joint) : List Text :=
  (j.records.flatMap fun r => Text.lines r.stdout).mergeSort precedes

/-- What either process has said on standard error. -/
def stderr (j : Joint) : Text :=
  j.records.flatMap Record.stderr

/-- The sleeps of both processes. -/
def sleeps (j : Joint) : List Request :=
  j.records.flatMap fun r => sleepsOf r.calls

end Joint

end Offspring.ForkProgram
