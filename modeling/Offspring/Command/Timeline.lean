import Offspring.Capture.Reader
import Offspring.Command.World
/-!
# What a program does in time

Whoever reads a channel sees a write one microsecond after it was made, together with
all other writes of that moment, and an end one microsecond later than that: what a
process writes is seen before its end is.

A reader that stops because it cannot decode closes its side of the channel, which
breaks it for the program.  What the program does up to then does not depend on that,
so the time of the first break can be read off the program as it would go on unbroken,
and the time of a second one off the program with the first.
-/

namespace Offspring

/-- Bytes written to a channel at a time. -/
structure Write where
  time : Nat
  channel : Channel
  bytes : Bytes
  deriving DecidableEq, Repr

/-- All that a program does. -/
structure Performance where
  /-- In the order of time. -/
  writes : List Write
  /-- When nobody holds standard output any more, if ever. -/
  outUntil : Option Nat
  /-- When nobody holds standard error any more, if ever. -/
  errUntil : Option Nat
  /-- When the process that was started ends, and how. -/
  exit : Option (Nat × Death)
  deriving DecidableEq, Repr

/-- What comes to the readers at a time. -/
structure Arrival where
  time : Nat
  /-- Reads in order; a read of nothing is the end of its channel. -/
  reads : List (Channel × Bytes)
  /-- The end of the process that was started. -/
  exit : Option Death
  deriving DecidableEq, Repr

namespace Performance

/-- What the processes of a world do, the first one of a pid. -/
def ofWorld (w : World) (pid : Nat) : Performance :=
  let of (c : Channel) : List (Nat × Nat × Write) :=
    w.tasks.flatMap fun t => (t.written.filter fun x => x.conduit = .channel c).map fun x =>
      (x.time, x.order, ⟨x.time, c, Octets.toBytes x.bytes⟩)
  let sorted := (of .out ++ of .err).mergeSort fun a b =>
    decide (a.1 < b.1) || (decide (a.1 = b.1) && decide (a.2.1 ≤ b.2.1))
  { writes := sorted.map fun x => x.2.2
    outUntil := w.closes (.channel .out)
    errUntil := w.closes (.channel .err)
    exit := (w.task? pid).bind Task.ended }

/-- The times at which something is written, in order. -/
def times (p : Performance) : List Nat :=
  go p.writes
where
  /-- The times of writes in the order of time. -/
  go : List Write → List Nat
    | [] => []
    | [w] => [w.time]
    | w :: x :: ws => if w.time = x.time then go (x :: ws) else w.time :: go (x :: ws)

/-- The reads of a channel that take what is written at a time. -/
def readsAt (ws : List Write) (c : Channel) : List (Channel × Bytes) :=
  (Bytes.reads ((ws.filter fun w => w.channel = c).flatMap Write.bytes)).map fun bs => (c, bs)

/-- What writes in the order of time bring to the readers. -/
def brought : List Nat → List Write → List Arrival
  | [], _ => []
  | t :: ts, ws =>
    let now := ws.takeWhile fun w => w.time = t
    ⟨t + 1, readsAt now .out ++ readsAt now .err, none⟩ :: brought ts (ws.drop now.length)

/-- The end of a channel. -/
def closing (c : Channel) : Option Nat → List Arrival
  | none => []
  | some t => [⟨t + 2, [(c, [])], none⟩]

/-- The end of the process that was started. -/
def exiting (p : Performance) : List Arrival :=
  match p.exit with
  | none => []
  | some (t, d) => [⟨t + 2, [], some d⟩]

/-- What comes to the readers, in the order of time. -/
def arrivals (p : Performance) : List Arrival :=
  (brought p.times p.writes ++ closing .out p.outUntil ++ closing .err p.errUntil ++
    p.exiting).mergeSort fun a b => decide (a.time ≤ b.time)

end Performance

/-- The reads of a channel in an arrival. -/
def Arrival.readsOf (a : Arrival) (c : Channel) : List Bytes :=
  a.reads.filterMap fun r => if r.1 = c then some r.2 else none

/-- The undecoded tail after some reads, if they can be decoded. -/
def tailAfter? : Bytes → List Bytes → Option Bytes
  | tail, [] => some tail
  | tail, read :: reads =>
    match decodeRead tail read with
    | .piece _ tail => tailAfter? tail reads
    | .illFormed => none

/-- When the reader of a channel stops because it cannot decode, if it has a tail and
has taken so many bytes. -/
def breakIn (c : Channel) (tail : Bytes) (taken : Nat) : List Arrival → Option Break
  | [] => none
  | a :: rest =>
    match tailAfter? tail (a.readsOf c) with
    | none => some ⟨.channel c, a.time - 1, taken⟩
    | some tail => breakIn c tail (taken + ((a.readsOf c).map List.length).sum) rest

/-- A program: what it does when its channels break so. -/
abbrev Program := List Break → Performance

namespace Program

/-- When the readers of a program break its channels. -/
def breaks (p : Program) : List Break :=
  let arrivals := (p []).arrivals
  let then' (b : Break) (c : Channel) : List Break :=
    match breakIn c [] 0 (p [b]).arrivals with
    | none => [b]
    | some d => [b, d]
  match breakIn .out [] 0 arrivals, breakIn .err [] 0 arrivals with
  | none, none => []
  | some b, none => then' b .err
  | none, some b => then' b .out
  | some b, some d => if b.time ≤ d.time then then' b .err else then' d .out

/-- What comes to the readers, who close the channels that they cannot decode. -/
def witnessed (p : Program) : List Arrival :=
  (p p.breaks).arrivals

end Program

end Offspring
