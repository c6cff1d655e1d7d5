import Offspring.System.Script
/-!
# Sleeping

A sleep that a signal interrupts is taken up again for the time that is left, until
the whole duration has passed.  No time at all takes no call, and one call can be
asked for only so many seconds: a longer sleep goes on with what is left of it.
-/

namespace Offspring

/-- A length of time. -/
structure Duration where
  secs : Nat
  nanos : Nat
  deriving DecidableEq, Repr

namespace Duration

/-- The duration of some seconds and nanoseconds, with less than a second of the
latter. -/
def of (secs nanos : Nat) : Duration :=
  ⟨secs + nanos / 1000000000, nanos % 1000000000⟩

/-- Whether no time is left. -/
def isZero (d : Duration) : Bool :=
  d.secs == 0 && d.nanos == 0

/-- What is left of a duration after `n` seconds. -/
def after (d : Duration) (n : Nat) : Duration :=
  { d with secs := d.secs - n }

/-- The most seconds that one call can be asked for. -/
def longest : Nat := 9223372036854775807

/-- What one call is asked for. -/
def asked (d : Duration) : Duration :=
  { d with secs := min d.secs longest }

/-- What is left after a call that ran to its end. -/
def rest (d : Duration) : Duration :=
  ⟨d.secs - longest, 0⟩

/-- The requests of a sleep that nothing interrupts. -/
def requests (d : Duration) : List Duration :=
  if d.secs ≤ longest then (if d.isZero then [] else [d])
  else d.asked :: d.rest.requests
termination_by d.secs
decreasing_by simp only [rest, longest] at *; omega

end Duration

/-- The requests of a sleep on a list of interruptions, and the interruptions that
are left. -/
def sleepOn (d : Duration) : List Nat → List Duration × List Nat
  | [] => (d.requests, [])
  | n :: ns =>
    if d.isZero then ([], n :: ns)
    else
      let left := if n < d.asked.secs then d.after n else d.rest
      let (requests, rest) := sleepOn left ns
      (d.asked :: requests, rest)

/-- Sleeps for a duration. -/
def System.sleep (s : System) (d : Duration) : Did Unit :=
  let (requests, rest) := sleepOn d s.script.sleeps
  ⟨(), requests.map fun r => s.call (.sleep r.secs r.nanos),
    { s with script := { s.script with sleeps := rest } }⟩

end Offspring
