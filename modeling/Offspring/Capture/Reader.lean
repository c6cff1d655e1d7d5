import Offspring.System.Channel
import Offspring.Text.Utf8
/-!
# Reading a channel as text

A reader takes a channel read by read.  The bytes of a read are joined to the
undecoded tail, and the text that they complete is split off.  That piece then goes
through three moves: it is shown, it is added to the log, and it is added to the
content, whose new length is published to whoever watches.  A character that a read
cuts stays in the tail.  A read of nothing is the end of the channel.

The reader stops with a failure as soon as no text can begin with the bytes read, or
when the channel ends inside a character.  Nothing of the failing read is shown,
logged or kept.  Who watches the content can spoil it (see `Offspring.Capture.Watch`),
and a reader that then comes to add to it panics.  However a reader stops, one last
move makes it known that nothing more will be published.
-/

namespace Offspring

/-- What one read, joined to the tail, gives. -/
inductive Decoded where
  /-- Some text, and the tail after it. -/
  | piece (t : Text) (tail : Bytes)
  /-- No text begins like this, or the channel ends inside a character. -/
  | illFormed
  deriving DecidableEq, Repr

/-- Joins a read to the tail and decodes. -/
def decodeRead (tail read : Bytes) : Decoded :=
  match Utf8.scan .start (tail ++ read) with
  | (t, .whole) => .piece t []
  | (t, .cut held) => if read.isEmpty then .illFormed else .piece t held
  | (_, .illFormed) => .illFormed

/-- How a reader ends. -/
inductive Fate where
  /-- At the end of the channel. -/
  | ended
  /-- At bytes that are no text. -/
  | failed
  /-- At spoilt content. -/
  | panicked
  deriving DecidableEq, Repr

/-- Where a reader stands. -/
inductive Stage where
  /-- About to read. -/
  | reading
  /-- About to show a piece; `last` says that it came with the end of the channel. -/
  | showing (piece : Text) (last : Bool)
  /-- About to log a piece. -/
  | logging (piece : Text) (last : Bool)
  /-- About to keep a piece and publish the length. -/
  | keeping (piece : Text) (last : Bool)
  /-- Stopped, and about to make that known. -/
  | leaving (f : Fate)
  /-- Stopped. -/
  | stopped (f : Fate)
  deriving DecidableEq, Repr

/-- The reader of one channel. -/
structure Reader where
  stage : Stage
  /-- The bytes read and not decoded. -/
  tail : Bytes
  /-- What was shown. -/
  shown : Text
  /-- What this reader added to the log. -/
  logged : Text
  /-- What was kept. -/
  content : Text
  /-- The lengths of the content that were published, latest first. -/
  published : List Nat
  /-- Whether the content is spoilt. -/
  spoilt : Bool
  deriving DecidableEq, Repr

namespace Reader

/-- A reader before its first read. -/
def start : Reader := ⟨.reading, [], [], [], [], [], false⟩

/-- How many lengths were published. -/
def version (r : Reader) : Nat :=
  r.published.length

/-- The length last published. -/
def length (r : Reader) : Nat :=
  r.published.headD 0

/-- How the reader ended, once it has. -/
def fate? (r : Reader) : Option Fate :=
  match r.stage with
  | .stopped f => some f
  | _ => none

/-- Whether it is known that the reader will publish nothing more. -/
def isOver (r : Reader) : Bool :=
  r.fate?.isSome

/-- Takes one read. -/
def take (r : Reader) (read : Bytes) : Reader :=
  match r.stage with
  | .reading =>
    match decodeRead r.tail read with
    | .piece t tail => { r with stage := .showing t read.isEmpty, tail := tail }
    | .illFormed => { r with stage := .leaving .failed }
  | _ => r

/-- The next of the moves that follow a read. -/
def move (r : Reader) : Reader :=
  match r.stage with
  | .showing t last => { r with stage := .logging t last, shown := r.shown ++ t }
  | .logging t last => { r with stage := .keeping t last, logged := r.logged ++ t }
  | .keeping t last =>
    if r.spoilt then { r with stage := .leaving .panicked }
    else
      let content := r.content ++ t
      { r with
        stage := if last then .leaving .ended else .reading
        content := content
        published := content.size :: r.published }
  | .leaving f => { r with stage := .stopped f }
  | _ => r

/-- The piece that the next move adds to the log. -/
def logs? (r : Reader) : Option Text :=
  match r.stage with
  | .logging t _ => some t
  | _ => none

/-- A read with all the moves that follow it. -/
def feed (r : Reader) (read : Bytes) : Reader :=
  (r.take read).move.move.move.move

/-- A row of reads, each with all its moves. -/
def feedAll (r : Reader) (reads : List Bytes) : Reader :=
  reads.foldl feed r

end Reader

end Offspring
