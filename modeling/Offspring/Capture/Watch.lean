import Offspring.Capture.Reader
import Offspring.Text.Lines
/-!
# Watching the content

A waiter wants the content of a channel, from a byte on, to be as it expects.  It
marks how many lengths were published, checks the content, and if that is not as
expected awaits a change: a length published since the mark.  If there is none and
the reader will publish nothing more, the channel is closed.  Marking before checking
is what keeps a change between the two from being missed.

The check cuts the content at the byte.  A byte beyond the content or inside a
character makes the waiter panic while it holds the content, which is then spoilt
for all later checks and for the reader.
-/

namespace Offspring

/-- Where a waiter stands; `seen` is how many lengths were published at its mark. -/
inductive Watching where
  | marking
  | checking (seen : Nat)
  | awaiting (seen : Nat)
  /-- The content was as expected. -/
  | met
  /-- Nothing more is published and the content was not as expected. -/
  | closed
  /-- The content could not be checked. -/
  | panicked
  deriving DecidableEq, Repr

/-- Who waits for some content. -/
structure Waiter where
  /-- The byte from which the content is looked at. -/
  start : Nat
  /-- What is expected of it. -/
  expects : Text → Bool
  stage : Watching

namespace Waiter

/-- A waiter before its first mark. -/
def new (start : Nat) (expects : Text → Bool) : Waiter :=
  ⟨start, expects, .marking⟩

/-- Looks at the content: the waiter and the reader after it. -/
def check (w : Waiter) (seen : Nat) (r : Reader) : Waiter × Reader :=
  if r.spoilt then ({ w with stage := .panicked }, r)
  else
    match r.content.fromByte? w.start with
    | none => ({ w with stage := .panicked }, { r with spoilt := true })
    | some t => ({ w with stage := if w.expects t then .met else .awaiting seen }, r)

/-- The next move of a waiter.  A waiter that awaits stays where it is as long as there
is no change. -/
def step (w : Waiter) (r : Reader) : Waiter × Reader :=
  match w.stage with
  | .marking => ({ w with stage := .checking r.version }, r)
  | .checking seen => w.check seen r
  | .awaiting seen =>
    if r.version ≠ seen then ({ w with stage := .marking }, r)
    else if r.isOver then ({ w with stage := .closed }, r)
    else (w, r)
  | _ => (w, r)

/-- So many moves of a waiter, with the reader at rest. -/
def steps : Nat → Waiter → Reader → Waiter × Reader
  | 0, w, r => (w, r)
  | n + 1, w, r => let (w, r) := w.step r; steps n w r

/-- Moves a waiter on until it is done or awaits a change that has not come; with the
reader at rest four moves are enough. -/
def settle (w : Waiter) (r : Reader) : Waiter × Reader :=
  steps 4 w r

/-- A waiter for some lines. -/
def forLines (expected : List Text) : Waiter :=
  new 0 (Text.hasLines expected)

/-- A waiter for some text, from a byte on. -/
def forText (start : Nat) (part : Text) : Waiter :=
  new start (Text.holds part)

end Waiter

/-- A move of the reader or of the waiter of one channel. -/
inductive WatchEvent where
  | read (bytes : Bytes)
  | move
  | wait
  deriving DecidableEq, Repr

/-- One event of a waiter and a reader side by side. -/
def watchStep (s : Waiter × Reader) : WatchEvent → Waiter × Reader
  | .read bytes => (s.1, s.2.take bytes)
  | .move => (s.1, s.2.move)
  | .wait => s.1.step s.2

/-- A schedule of a waiter and a reader side by side. -/
def watchRun (s : Waiter × Reader) (events : List WatchEvent) : Waiter × Reader :=
  events.foldl watchStep s

end Offspring
