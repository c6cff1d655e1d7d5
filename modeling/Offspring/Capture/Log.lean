import Offspring.Capture.Reader
/-!
# Two readers and their log

The two channels of a program have a reader each, and both add to one log.  The
readers move in any order: a schedule is a row of events, each a read or the next
move of one reader.  The log is kept as the pieces that were added to it, with the
channel that each came from; its text is all of them in order.
-/

namespace Offspring

/-- Both readers, and the log. -/
structure Capture where
  out : Reader
  err : Reader
  log : List (Channel × Text)
  deriving DecidableEq, Repr

/-- A move of one of the readers. -/
inductive CaptureEvent where
  /-- The reader of a channel takes a read. -/
  | read (c : Channel) (bytes : Bytes)
  /-- The reader of a channel makes the next move after a read. -/
  | move (c : Channel)
  deriving DecidableEq, Repr

namespace Capture

/-- Before the first read. -/
def start : Capture := ⟨.start, .start, []⟩

/-- The reader of a channel. -/
def reader (s : Capture) : Channel → Reader
  | .out => s.out
  | .err => s.err

/-- With another reader for a channel. -/
def setReader (s : Capture) (c : Channel) (r : Reader) : Capture :=
  match c with
  | .out => { s with out := r }
  | .err => { s with err := r }

/-- One event. -/
def step (s : Capture) : CaptureEvent → Capture
  | .read c bytes => s.setReader c ((s.reader c).take bytes)
  | .move c =>
    let r := s.reader c
    let entry := match r.logs? with
      | some t => [(c, t)]
      | none => []
    { s.setReader c r.move with log := s.log ++ entry }

/-- A schedule of events. -/
def run (s : Capture) (events : List CaptureEvent) : Capture :=
  events.foldl step s

/-- The events of a read and of all the moves that follow it. -/
def wholeRead (c : Channel) (bytes : Bytes) : List CaptureEvent :=
  [.read c bytes, .move c, .move c, .move c, .move c]

/-- A read of a channel with all the moves that follow it. -/
def feed (s : Capture) (c : Channel) (bytes : Bytes) : Capture :=
  s.run (wholeRead c bytes)

/-- The text of the log. -/
def logText (s : Capture) : Text :=
  s.log.flatMap Prod.snd

end Capture

end Offspring
