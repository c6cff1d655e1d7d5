import Offspring.ForkProgram.Joint
/-!
# The command line of the fork program

One process plays both sides of the fork: it prints the lines of both, sleeps once
for the sleeps that overlap, and ends as the parent does.
-/

namespace Offspring.Main

/-- The name that the program is called by. -/
def name : String := "fork"

/-- Sleeps for some seconds. -/
def pause : Nat → IO Unit
  | 0 => pure ()
  | n + 1 => do
    IO.sleep 1000
    pause n

/-- The seconds of the longest of some sleeps. -/
def longest (sleeps : List Request) : Nat :=
  sleeps.foldl (fun n r =>
    match r with
    | .sleep secs _ => max n secs
    | _ => n) 0

/-- The exit code of a process. -/
def exitCode : ForkProgram.Finish → UInt32
  | .exited status => UInt32.ofNat (exitByte status).toNat
  | .panicked => 101

end Offspring.Main

open Offspring Offspring.Main in
/-- Runs both processes of the fork program on the arguments given. -/
def main (args : List String) : IO UInt32 := do
  let argv := (name :: args).map fun a => Text.encode a.toList
  let joint := ForkProgram.Joint.run argv
  for r in joint.records do
    IO.print (String.ofList r.stdout)
  (← IO.getStdout).flush
  pause (longest joint.sleeps)
  IO.eprint (String.ofList joint.stderr)
  return exitCode joint.parent.finish
