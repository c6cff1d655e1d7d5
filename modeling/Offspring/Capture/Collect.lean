import Offspring.Capture.Reader
import Offspring.Runner.Failure
import Offspring.System.WaitStatus
/-!
# Collecting a program

Whoever collects a program awaits three things in a fixed order, all under one
deadline: the end of standard output, the end of standard error, and the end of the
program.  They come at their own times and in any order, so an early failure of
standard error is only seen once standard output has ended.
-/

namespace Offspring

/-- When the readers and the program end, and how; none for never. -/
structure Endings where
  out : Option (Nat × Fate)
  err : Option (Nat × Fate)
  exit : Option (Nat × Death)
  deriving DecidableEq, Repr

/-- What collecting a program gives. -/
inductive Collected where
  | finished (d : Death)
  | failed (f : Failure)
  /-- The content was spoilt after standard output had ended. -/
  | panicked
  deriving DecidableEq, Repr

/-- What has come by the deadline. -/
def byDeadline {α : Type} (deadline : Nat) : Option (Nat × α) → Option α
  | none => none
  | some (time, a) => if time ≤ deadline then some a else none

/-- Collects a program. -/
def Endings.collect (e : Endings) (deadline : Nat) (spoilt : Bool) : Collected :=
  match byDeadline deadline e.out with
  | none => .failed .timedOut
  | some .failed => .failed .illFormed
  | some .panicked => .failed .readerPanicked
  | some .ended =>
    match byDeadline deadline e.err with
    | none => .failed .timedOut
    | some .failed => .failed .illFormed
    | some .panicked => .failed .readerPanicked
    | some .ended =>
      match byDeadline deadline e.exit with
      | none => .failed .timedOut
      | some d => if spoilt then .panicked else .finished d

end Offspring
