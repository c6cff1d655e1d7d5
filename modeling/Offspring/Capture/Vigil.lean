import Offspring.Capture.Collect
import Offspring.Capture.Log
import Offspring.Capture.Watch
/-!
# A program under many eyes

While both readers are at work, any number of waiters can be called to watch standard
output.  A vigil is the capture together with all the waiters so far, in the order in
which they were called.  The readers and the waiters move in any order, and a waiter whose
time runs out makes no more moves.
-/

namespace Offspring

/-- A capture and those who watch its standard output. -/
structure Vigil where
  capture : Capture
  waiters : List Waiter

/-- A move of a reader, the call of a new waiter, or a move of a waiter. -/
inductive VigilEvent where
  | reader (e : CaptureEvent)
  | call (start : Nat) (expects : Text → Bool)
  | wait (i : Nat)

namespace Vigil

/-- Before the first read and the first call. -/
def start : Vigil := ⟨.start, []⟩

/-- One event. -/
def step (v : Vigil) : VigilEvent → Vigil
  | .reader e => { v with capture := v.capture.step e }
  | .call start expects => { v with waiters := v.waiters ++ [.new start expects] }
  | .wait i =>
    match v.waiters[i]? with
    | none => v
    | some w =>
      let (w, r) := w.step v.capture.out
      ⟨{ v.capture with out := r }, v.waiters.set i w⟩

/-- A schedule of events. -/
def run (v : Vigil) (events : List VigilEvent) : Vigil :=
  events.foldl step v

end Vigil

/-- What collecting the program gives when its process has ended so or goes on, and no time
is set: a failure of time stands for what is still awaited. -/
def Capture.collect (s : Capture) (exit : Option Death) : Collected :=
  Endings.collect
    ⟨s.out.fate?.map fun f => (0, f), s.err.fate?.map fun f => (0, f),
      exit.map fun d => (0, d)⟩
    0 s.out.spoilt

end Offspring
