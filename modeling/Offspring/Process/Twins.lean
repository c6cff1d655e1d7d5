import Offspring.Process.Steps
/-!
# Both processes of a fork

A fork leaves two processes with the same memory, what is pending included, and with one
descriptor for their output.  From then on each goes its own way, and what either writes
comes after all that both had written.
-/

namespace Offspring

/-- What a process does. -/
inductive Act where
  | step (s : Step)
  /-- Ends the process with a status. -/
  | exit (status : Int)
  deriving DecidableEq, Repr

/-- A process after an act. -/
def Scripted.act (p : Scripted) : Act → Scripted
  | .step s => (p.step s).2.2
  | .exit status => { p with system := { p.system with out := (p.system.out.exit status).2 } }

/-- The two processes. -/
structure Twins where
  main : Scripted
  child : Scripted
  /-- What has reached the descriptor, in order, each text with who wrote it. -/
  screen : List (Role × Text)
  deriving DecidableEq, Repr

namespace Twins

/-- A process makes the next call on a system of its own. -/
def forkOn (p : Scripted) (script : Script) : Scripted :=
  ({ p with system := { p.system with script := script } }.step .fork).2.2

/-- The two processes that a process becomes, given what the system replies to either
from the fork on.  All that has been written by then the process wrote itself. -/
def fork (p : Scripted) (main child : Script) : Twins :=
  ⟨forkOn p main, forkOn p child, [(.main, (forkOn p main).system.out.written)]⟩

/-- The process on one side. -/
def process (t : Twins) : Role → Scripted
  | .main => t.main
  | .child => t.child

/-- Puts a process in its place after an act, with what it has written since. -/
def put (t : Twins) (r : Role) (p : Scripted) : Twins :=
  let new := p.system.out.written.drop (t.process r).system.out.written.length
  match r with
  | .main => { t with main := p, screen := t.screen ++ [(r, new)] }
  | .child => { t with child := p, screen := t.screen ++ [(r, new)] }

/-- One side acts. -/
def act (t : Twins) (r : Role) (a : Act) : Twins :=
  t.put r ((t.process r).act a)

/-- Both sides act in some order. -/
def run (t : Twins) (acts : List (Role × Act)) : Twins :=
  acts.foldl (fun t a => t.act a.1 a.2) t

end Twins

end Offspring
