import Offspring.Capture.Collect
import Offspring.Capture.Log
import Offspring.Capture.Watch
import Offspring.Command.Timeline
/-!
# A running program under watch

A trial holds the capture of a program that was started, the time, and what is still
to come from it.  Nothing comes while nobody waits.  A wait lets it come in the order
of time until the wait is over or its deadline passes; the readers take all that comes
at one time before the waiter looks again.
-/

namespace Offspring

/-- A program that was started. -/
structure Trial where
  capture : Capture
  /-- The microseconds since the start. -/
  now : Nat
  /-- What has not come yet, in the order of time. -/
  coming : List Arrival
  /-- What has ended, and when. -/
  endings : Endings
  deriving DecidableEq, Repr

/-- What a program left. -/
structure Output where
  death : Death
  stdout : Text
  stderr : Text
  shownOut : Text
  shownErr : Text
  log : Text
  /-- The microseconds from the start to the end. -/
  elapsed : Nat
  deriving DecidableEq, Repr

/-- The text of the log, unless it depends on the order in which the readers ran. -/
def Output.certainLog (o : Output) : Option Text :=
  if o.stdout.isEmpty || o.stderr.isEmpty then some o.log else none

/-- What collecting a program gives. -/
inductive Outcome where
  | output (o : Output)
  | failed (f : Failure)
  | panicked
  deriving DecidableEq, Repr

/-- How a wait for some content ends. -/
inductive Waited where
  | met
  /-- Standard output ended; this is the content from the byte on. -/
  | closed (seen : Text)
  | late
  | panicked
  /-- There is no deadline and nothing is to come. -/
  | never
  deriving DecidableEq, Repr

/-- A number of milliseconds in microseconds. -/
def millis (n : Nat) : Nat := n * 1000

namespace Trial

/-- A program right after its start. -/
def start (p : Program) : Trial :=
  ⟨.start, 0, p.witnessed, ⟨none, none, none⟩⟩

/-- The first of two things that is known, with the time of the second. -/
def noted {α : Type} (known : Option (Nat × α)) (time : Nat) (found : Option α) :
    Option (Nat × α) :=
  match known with
  | some k => some k
  | none => found.map fun a => (time, a)

/-- Lets something come; what comes late is taken at once. -/
def advance (t : Trial) (a : Arrival) : Trial :=
  let capture := a.reads.foldl (fun s r => s.feed r.1 r.2) t.capture
  { t with
    capture := capture
    now := max t.now a.time
    endings :=
      { out := noted t.endings.out a.time capture.out.fate?
        err := noted t.endings.err a.time capture.err.fate?
        exit := noted t.endings.exit a.time a.exit } }

/-- Lets a waiter look at the content of standard output. -/
def settle (t : Trial) (w : Waiter) : Waiter × Trial :=
  let (w, r) := w.settle t.capture.out
  (w, { t with capture := { t.capture with out := r } })

/-- Whether a time is past a deadline. -/
def isPast (deadline : Option Nat) (time : Nat) : Bool :=
  match deadline with
  | some d => d < time
  | none => false

/-- The wait is over at its deadline, with some things still to come. -/
def expire (t : Trial) (deadline : Option Nat) (coming : List Arrival) : Waited × Trial :=
  match deadline with
  | some d => (.late, { t with now := d, coming := coming })
  | none => (.never, { t with coming := coming })

/-- Waits for some content, up to a deadline if there is one. -/
def await (deadline : Option Nat) : List Arrival → Waiter → Trial → Waited × Trial
  | coming, w, t =>
    let (w, t) := t.settle w
    match w.stage with
    | .met => (.met, { t with coming := coming })
    | .panicked => (.panicked, { t with coming := coming })
    | .closed =>
      (.closed ((t.capture.out.content.fromByte? w.start).getD []), { t with coming := coming })
    | _ =>
      match coming with
      | [] => t.expire deadline []
      | a :: rest =>
        if isPast deadline a.time then t.expire deadline (a :: rest)
        else await deadline rest w (t.advance a)

/-- Waits for some lines of standard output. -/
def waitLines (t : Trial) (expected : List Text) (timeout : Nat) : Waited × Trial :=
  await (some (t.now + millis timeout)) t.coming (.forLines expected) t

/-- Waits for some text on standard output, from a byte on. -/
def waitText (t : Trial) (start : Nat) (part : Text) : Waited × Trial :=
  await none t.coming (.forText start part) t

/-- Lets everything come up to a time. -/
def runTo (t : Trial) (deadline : Nat) : Trial :=
  (t.coming.takeWhile fun a => decide (a.time ≤ deadline)).foldl advance t

/-- The time of an ending, or zero. -/
def timeOf {α : Type} : Option (Nat × α) → Nat
  | some (time, _) => time
  | none => 0

/-- What a program has left, when it died so. -/
def output (t : Trial) (d : Death) : Output :=
  { death := d
    stdout := t.capture.out.content
    stderr := t.capture.err.content
    shownOut := t.capture.out.shown
    shownErr := t.capture.err.shown
    log := t.capture.logText
    elapsed := max t.now (max (timeOf t.endings.out)
      (max (timeOf t.endings.err) (timeOf t.endings.exit))) }

/-- Waits for the program to end, and collects what it left. -/
def collect (t : Trial) (timeout : Nat) : Outcome :=
  let deadline := t.now + millis timeout
  let last := t.runTo deadline
  match last.endings.collect deadline last.capture.out.spoilt with
  | .finished d => .output ({ last with now := t.now }.output d)
  | .failed f => .failed f
  | .panicked => .panicked

end Trial

end Offspring
