import Offspring.System.Channel
import Offspring.System.Files
import Offspring.System.Signal
import Offspring.System.WaitStatus
/-!
# Processes in time

All that runs on a machine: its files, its processes, and what each of them has
written and when.  Times are in microseconds from the start.  Processes run side by
side, but one is told after the other: a process that others wait for, or whose output
they read, has been told to its end before they go on.

A conduit is what bytes go through to someone else.  It ends when every process that
holds it has let go of it.  Where its reader stops reading before, the conduit breaks:
a process that writes to it afterwards is killed by a signal.

What happens to a process that was told already, such as a break or a signal, must be
known before it is told.  So a world starts with a foresight, and notes what turned out
to be missing from it; then all is told again with the first of that foreseen too.
-/

namespace Offspring

/-- What bytes go through to someone else. -/
inductive Conduit where
  /-- One of the channels of the program that was started. -/
  | channel (c : Channel)
  /-- A pipe between two processes. -/
  | pipe (n : Nat)
  deriving DecidableEq, Repr

/-- Bytes written to a conduit. -/
structure Written where
  time : Nat
  /-- Tells writes of one time apart. -/
  order : Nat
  conduit : Conduit
  bytes : Octets
  deriving DecidableEq, Repr

/-- A process as others see it. -/
structure Task where
  pid : Nat
  parent : Nat
  /-- Latest first. -/
  written : List Written
  /-- The conduits that it held, and when it let go of each, if it has. -/
  holds : List (Conduit × Option Nat)
  ended : Option (Nat × Death)
  /-- Whether its parent knows that it has ended. -/
  reaped : Bool
  deriving DecidableEq, Repr

/-- The reading end of a pipe: what comes when, how much of it was taken, and when it
ends, if ever. -/
structure Source where
  chunks : List (Nat × Octets)
  taken : Nat
  closes : Option Nat
  deriving DecidableEq, Repr

/-- A file that is open. -/
structure Opened where
  /-- The names that lead to it. -/
  names : List Octets
  /-- Where the next byte is read or written. -/
  position : Nat
  appends : Bool
  deriving DecidableEq, Repr

/-- A conduit whose reader stops at a time, when it had taken so many bytes. -/
structure Break where
  conduit : Conduit
  time : Nat
  taken : Nat
  deriving DecidableEq, Repr

/-- A signal sent to a process. -/
structure Sent where
  time : Nat
  pid : Nat
  signal : Nat
  deriving DecidableEq, Repr

/-- What is known of the future. -/
structure Foresight where
  breaks : List Break
  sent : List Sent
  deriving DecidableEq, Repr

/-- What should have been foreseen. -/
inductive Surprise where
  | break (b : Break)
  | sent (s : Sent)
  deriving DecidableEq, Repr

/-- When a surprise happens. -/
def Surprise.time : Surprise → Nat
  | .break b => b.time
  | .sent s => s.time

/-- A foresight with one more thing foreseen. -/
def Foresight.add (f : Foresight) : Surprise → Foresight
  | .break b => { f with breaks := b :: f.breaks }
  | .sent s => { f with sent := s :: f.sent }

/-- All that runs on a machine. -/
structure World where
  files : Files
  opened : List (Nat × Opened)
  sources : List (Nat × Source)
  tasks : List Task
  /-- Signals that have not come to their processes yet. -/
  sent : List Sent
  foresight : Foresight
  surprises : List Surprise
  /-- The bytes written to each conduit so far. -/
  counts : List (Conduit × Nat)
  /-- The next number for anything that needs one. -/
  next : Nat
  /-- How many more commands are told. -/
  budget : Nat

namespace World

/-- How many commands are told. -/
def patience : Nat := 400000

/-- How many commands are told before each of them takes time. -/
def haste : Nat := 5000

/-- The microseconds that a command takes when many were told. -/
def effort : Nat := 10

/-- As how many commands a new process counts. -/
def forkCost : Nat := 100

/-- A world in which nothing runs. -/
def start (files : Files) (f : Foresight) : World :=
  ⟨files, [], [], [], f.sent, f, [], [], 0, patience⟩

/-- A fresh number. -/
def fresh (w : World) : Nat × World :=
  (w.next, { w with next := w.next + 1 })

/-- Changes the task of a pid. -/
def adjust (w : World) (pid : Nat) (f : Task → Task) : World :=
  { w with tasks := go w.tasks }
where
  go : List Task → List Task
    | [] => []
    | t :: ts => if t.pid = pid then f t :: ts else t :: go ts

/-- The task of a pid. -/
def task? (w : World) (pid : Nat) : Option Task :=
  w.tasks.find? fun t => t.pid = pid

/-- The bytes written to a conduit so far. -/
def count (w : World) (c : Conduit) : Nat :=
  ((w.counts.find? fun x => x.1 = c).map Prod.snd).getD 0

/-- Counts bytes written to a conduit. -/
def counted (w : World) (c : Conduit) (n : Nat) : World :=
  { w with counts := (c, w.count c + n) :: w.counts.filter fun x => x.1 != c }

/-- How many bytes a pipe holds that nobody has taken. -/
def pipeSize : Nat := 65536

/-- How many bytes are told of a conduit that nobody has broken. -/
def telling : Nat := 2097152

/-- Whether a conduit is broken for who writes so many bytes to it at a time: after the
time of a break it is, and at that time for what finds no room. -/
def isBroken (w : World) (c : Conduit) (time length : Nat) : Bool :=
  w.foresight.breaks.any fun b =>
    b.conduit = c &&
      (b.time < time || (b.time = time && b.taken + pipeSize < w.count c + length))

/-- Whether who writes to a conduit gets no further. -/
def isClogged (w : World) (c : Conduit) : Bool :=
  telling < w.count c

/-- Notes a write of a process. -/
def write (w : World) (pid time : Nat) (c : Conduit) (bytes : Octets) : World :=
  let (order, w) := w.fresh
  let w := w.counted c bytes.length
  w.adjust pid fun t => { t with written := ⟨time, order, c, bytes⟩ :: t.written }

/-- The later of two times, of which either may never come. -/
def later : Option Nat → Option Nat → Option Nat
  | some s, some t => some (max s t)
  | _, _ => none

/-- When all processes have let go of a conduit. -/
def closes (w : World) (c : Conduit) : Option Nat :=
  (w.tasks.flatMap fun t => (t.holds.filter fun h => h.1 = c).map Prod.snd).foldl later (some 0)

/-- Everything that was written to a conduit, in the order of time. -/
def chunks (w : World) (c : Conduit) : List (Nat × Octets) :=
  let all := w.tasks.flatMap fun t => t.written.filter fun x => x.conduit = c
  let sorted := all.mergeSort fun a b =>
    decide (a.time < b.time) || (decide (a.time = b.time) && decide (a.order ≤ b.order))
  sorted.map fun x => (x.time, x.bytes)

/-- Makes what was written to a pipe its reading end. -/
def conclude (w : World) (n : Nat) : World :=
  { w with sources := (n, ⟨w.chunks (.pipe n), 0, w.closes (.pipe n)⟩) :: w.sources }

/-- The reading end of a pipe. -/
def source (w : World) (n : Nat) : Source :=
  ((w.sources.find? fun x => x.1 = n).map Prod.snd).getD ⟨[], 0, some 0⟩

/-- Sets the reading end of a pipe. -/
def setSource (w : World) (n : Nat) (s : Source) : World :=
  { w with sources := (n, s) :: w.sources.filter fun x => x.1 != n }

/-- A file that is open. -/
def opened? (w : World) (n : Nat) : Option Opened :=
  (w.opened.find? fun x => x.1 = n).map Prod.snd

/-- Sets a file that is open. -/
def setOpened (w : World) (n : Nat) (o : Opened) : World :=
  { w with opened := (n, o) :: w.opened.filter fun x => x.1 != n }

/-- The content of a file by its names. -/
def contentOf (w : World) (names : List Octets) : Octets :=
  match w.files.root.get? names with
  | some (.file t _) => t
  | _ => []

/-- Sets the content of a file. -/
def setContent (w : World) (names : List Octets) (t : Octets) : World :=
  match w.files.root.get? names with
  | some (.file _ runs) => { w with files := ⟨w.files.root.set names (some (.file t runs))⟩ }
  | _ => w

/-- Adds to a file that is open. -/
def addTo (w : World) (n : Nat) (bytes : Octets) : World :=
  match w.opened? n with
  | none => w
  | some o =>
    let t := w.contentOf o.names
    let i := if o.appends then t.length else o.position
    let pad := List.replicate (i - t.length) '\x00'
    let t := t.take i ++ pad ++ bytes ++ t.drop (i + bytes.length)
    (w.setContent o.names t).setOpened n { o with position := i + bytes.length }

/-- Notes what should have been foreseen. -/
def surprise (w : World) (x : Surprise) : World :=
  { w with surprises := w.surprises ++ [x] }

/-- The reader of a pipe is gone from a time on: whoever wrote to it later, or found no
room in it then, should have been told so. -/
def abandon (w : World) (n time : Nat) : World :=
  let c := Conduit.pipe n
  let s := w.source n
  let known := w.foresight.breaks.any fun b => b.conduit = c
  let later := s.chunks.any fun x => time < x.1
  let full := decide (s.taken + pipeSize <
    (s.chunks.filter fun x => x.1 ≤ time).foldl (fun n x => n + x.2.length) s.taken)
  if !known && (later || full) then w.surprise (.break ⟨c, time, s.taken⟩) else w

/-- Whether a process is another one or was made by it, at most so many times removed. -/
def isAbove (w : World) (pid : Nat) : Nat → Nat → Bool
  | 0, _ => false
  | n + 1, below =>
    pid = below ||
      match w.task? below with
      | some t => w.isAbove pid n t.parent
      | none => false

/-- The first of some surprises. -/
def firstOf : List Surprise → Option Surprise
  | [] => none
  | x :: xs =>
    match firstOf xs with
    | none => some x
    | some y => if y.time < x.time then some y else some x

/-- The world that comes without surprises, if at most so many things must be foreseen. -/
def settled (tell : Foresight → World) : Nat → Foresight → World
  | 0, f => tell f
  | n + 1, f =>
    let w := tell f
    match firstOf w.surprises with
    | none => w
    | some x => settled tell n (f.add x)

end World

/-- Where a descriptor leads. -/
inductive Stream where
  | conduit (c : Conduit)
  | file (n : Nat)
  | device (d : Device)
  /-- A folder, from which nothing can be read. -/
  | folder
  deriving DecidableEq, Repr

/-- Whether a process goes on. -/
inductive Going where
  | running
  | ended
  /-- It waits for something that never comes. -/
  | stuck
  deriving DecidableEq, Repr

/-- A running process. -/
structure Proc where
  world : World
  pid : Nat
  clock : Nat
  fds : List (Nat × Stream)
  /-- What it holds besides, for descriptors that it will put back. -/
  kept : List Stream
  cwd : List Octets
  /-- Names with their values, as it got them. -/
  environment : List (Octets × Octets)
  /-- The signals that it ignores. -/
  ignores : List Nat
  /-- The signals that it does something about. -/
  catches : List Nat
  /-- The signals about which something is to be done. -/
  pending : List Nat
  going : Going

/-- How a write ends. -/
inductive Wrote where
  | fully
  /-- The descriptor is not open for writing. -/
  | closed
  /-- The conduit is broken, and the signal for that is ignored. -/
  | broken
  /-- There is no room. -/
  | noRoom
  deriving DecidableEq, Repr

/-- What a read gets. -/
inductive Got where
  | bytes (t : Octets)
  /-- There is nothing more. -/
  | nothing
  /-- The descriptor is not open for reading. -/
  | closed
  /-- It is a folder. -/
  | folder
  deriving DecidableEq, Repr

namespace Proc

/-- Whether the process goes on. -/
def runs (p : Proc) : Bool :=
  p.going = .running

/-- Where a descriptor leads. -/
def stream? (p : Proc) (fd : Nat) : Option Stream :=
  (p.fds.find? fun x => x.1 = fd).map Prod.snd

/-- Whether the process holds a conduit. -/
def holds (p : Proc) (c : Conduit) : Bool :=
  (p.fds.any fun x => x.2 = .conduit c) || p.kept.contains (.conduit c)

/-- Notes the conduits that were let go of. -/
def release (p : Proc) : Proc :=
  { p with
    world := p.world.adjust p.pid fun t =>
      { t with holds := t.holds.map fun h =>
        if h.2.isNone && !p.holds h.1 then (h.1, some p.clock) else h } }

/-- Notes a conduit that the process has come to hold. -/
def hold (p : Proc) : Stream → Proc
  | .conduit c =>
    { p with
      world := p.world.adjust p.pid fun t =>
        { t with holds := (c, none) :: t.holds.filter fun h => h.1 != c } }
  | _ => p

/-- Makes a descriptor lead somewhere, or nowhere. -/
def setFd (p : Proc) (fd : Nat) (s : Option Stream) : Proc :=
  let others := p.fds.filter fun x => x.1 != fd
  match s with
  | none => ({ p with fds := others }).release
  | some s => (({ p with fds := (fd, s) :: others }).hold s).release

/-- Ends the process. -/
def finish (p : Proc) (d : Death) : Proc :=
  if !p.runs then p
  else
    { p with
      going := .ended
      world := p.world.adjust p.pid fun t =>
        { t with
          holds := t.holds.map fun h => (h.1, some (h.2.getD p.clock))
          ended := some (p.clock, d) } }

/-- Gets a signal. -/
def heed (p : Proc) (n : Nat) : Proc :=
  if p.going = .ended then p
  else if n = Signal.kill then { p with going := .running }.finish (.signal n)
  else if n = Signal.stop then { p with going := .stuck }
  else if n = Signal.resume then { p with going := .running }
  else if p.ignores.contains n then p
  else if p.catches.contains n then { p with pending := p.pending ++ [n] }
  else if Signal.isHarmless n then p
  else { p with going := .running }.finish (.signal n)

/-- Gets the signals that were sent up to a time. -/
def heedTo (p : Proc) (limit : Option Nat) : Proc :=
  let isMine (s : Sent) : Bool := s.pid = p.pid &&
    match limit with
    | none => true
    | some t => s.time ≤ t
  if p.world.sent.any isMine then
    let mine := (p.world.sent.filter isMine).mergeSort fun a b => decide (a.time ≤ b.time)
    let p := { p with world := { p.world with sent := p.world.sent.filter fun s => !isMine s } }
    mine.foldl (fun p s =>
      if p.going = .ended then p
      else { p with clock := max p.clock s.time }.heed s.signal) p
  else p

/-- Goes on at a time, if that comes. -/
def until' (p : Proc) (time : Option Nat) : Proc :=
  if !p.runs then p
  else
    let p := p.heedTo time
    if !p.runs then p
    else
      match time with
      | none => { p with going := .stuck }
      | some t => { p with clock := max p.clock t }

/-- Goes on no more, unless a signal ends it. -/
def stick (p : Proc) : Proc :=
  p.until' none

/-- Lets time pass. -/
def pause (p : Proc) (micros : Nat) : Proc :=
  p.until' (some (p.clock + micros))

/-- When a signal comes about which something is to be done. -/
def nextCaught? (p : Proc) : Option Nat :=
  ((p.world.sent.filter fun s =>
    s.pid = p.pid && p.catches.contains s.signal && !p.ignores.contains s.signal).map
      Sent.time).min?

/-- Writes to a descriptor. -/
def write (p : Proc) (fd : Nat) (bytes : Octets) : Wrote × Proc :=
  if !p.runs || bytes.isEmpty then (.fully, p)
  else
    match p.stream? fd with
    | none => (.closed, p)
    | some .folder => (.closed, p)
    | some (.device .full) => (.noRoom, p)
    | some (.device _) => (.fully, p)
    | some (.file n) => (.fully, { p with world := p.world.addTo n bytes })
    | some (.conduit c) =>
      if p.world.isBroken c p.clock bytes.length then
        (.broken, p.heed Signal.brokenPipe)
      else if p.world.isClogged c then (.fully, p.stick)
      else (.fully, { p with world := p.world.write p.pid p.clock c bytes })

/-- Reads from a descriptor what is there first, up to so many bytes. -/
def read (p : Proc) (fd limit : Nat) : Got × Proc :=
  if !p.runs then (.nothing, p)
  else
    match p.stream? fd with
    | none => (.closed, p)
    | some .folder => (.folder, p)
    | some (.device .null) => (.nothing, p)
    | some (.device _) => (.bytes (List.replicate (min limit 65536) '\x00'), p)
    | some (.conduit (.channel _)) => (.closed, p)
    | some (.file n) =>
      match p.world.opened? n with
      | none => (.closed, p)
      | some o =>
        let t := ((p.world.contentOf o.names).drop o.position).take limit
        if t.isEmpty then (.nothing, p)
        else
          (.bytes t, { p with
            world := p.world.setOpened n { o with position := o.position + t.length } })
    | some (.conduit (.pipe n)) =>
      let s := p.world.source n
      match s.chunks with
      | [] => (.nothing, p.until' s.closes)
      | (time, t) :: rest =>
        let left := t.drop limit
        let chunks := if left.isEmpty then rest else (time, left) :: rest
        let s : Source := { s with chunks := chunks, taken := s.taken + (t.take limit).length }
        (.bytes (t.take limit),
          { p with world := p.world.setSource n s }.until' (some time))

/-- Reads from a descriptor to its end, if it has one. -/
def readAll (p : Proc) (fd : Nat) : Got × Proc :=
  if !p.runs then (.nothing, p)
  else
    match p.stream? fd with
    | some (.device .null) => (.bytes [], p)
    | some (.device _) => (.nothing, p.stick)
    | some (.conduit (.pipe n)) =>
      let s := p.world.source n
      let t := s.chunks.flatMap Prod.snd
      let s' : Source := { s with chunks := [], taken := s.taken + t.length }
      (.bytes t, { p with world := p.world.setSource n s' }.until' s.closes)
    | some (.file n) =>
      match p.world.opened? n with
      | none => (.closed, p)
      | some o =>
        let t := (p.world.contentOf o.names).drop o.position
        (.bytes t, { p with
          world := p.world.setOpened n { o with position := o.position + t.length } })
    | _ => p.read fd 1

/-- How many reads it takes at most until a descriptor has nothing more, or until it can
be told that there is no end. -/
def readsOf (p : Proc) (fd : Nat) : Nat :=
  match p.stream? fd with
  | some (.conduit (.pipe n)) => (p.world.source n).chunks.length + 2
  | some (.file n) =>
    match p.world.opened? n with
    | some o => (p.world.contentOf o.names).length / 65536 + 2
    | none => 2
  | some (.device .null) => 2
  | some (.device _) => 64
  | _ => 2

/-- A process that the process makes, with the same descriptors. -/
def child (p : Proc) : Proc :=
  let (n, w) := p.world.fresh
  let pid := 100000 + n
  let held := (p.fds.map Prod.snd ++ p.kept).filterMap fun s =>
    match s with
    | .conduit c => some (c, none)
    | _ => none
  let task : Task := ⟨pid, p.pid, [], held.eraseDups, none, false⟩
  let w := { w with tasks := task :: w.tasks, budget := w.budget - World.forkCost }
  { p with world := w, pid := pid, catches := [], pending := [] }

/-- The process after what another one did to the world. -/
def after (p q : Proc) : Proc :=
  { p with world := q.world }

/-- How the process ended, and when. -/
def ended? (p : Proc) : Option (Nat × Death) :=
  match p.world.task? p.pid with
  | some t => t.ended
  | none => none

/-- Notes that it knows of the end of its children that have ended by now.  The end that a
signal of this very moment brings is not known yet. -/
def reap (p : Proc) : Proc :=
  let isSudden (t : Task) (e : Nat) : Bool :=
    e = p.clock && p.world.foresight.sent.any fun s => s.pid = t.pid && s.time = e
  { p with world := { p.world with tasks := p.world.tasks.map fun t =>
      match t.ended with
      | some (e, _) =>
        if t.parent = p.pid && e ≤ p.clock && !isSudden t e then { t with reaped := true } else t
      | none => t } }

/-- Sends a signal to a process, and says whether there is one; nothing is sent for
zero. -/
def send (p : Proc) (pid signal : Nat) : Bool × Proc :=
  match p.world.task? pid with
  | none => (false, p)
  | some t =>
    let isOver := match t.ended with
      | some (e, _) => decide (e ≤ p.clock)
      | none => false
    if p.world.foresight.sent.contains ⟨p.clock, pid, signal⟩ then (true, p)
    else if isOver then (!t.reaped, p)
    else if signal = 0 then (true, p)
    else if pid = p.pid then (true, p.heed signal)
    else
      let s : Sent := ⟨p.clock, pid, signal⟩
      if p.world.isAbove pid 64 p.pid then
        (true, { p with world := { p.world with sent := s :: p.world.sent } })
      else (true, { p with world := p.world.surprise (.sent s) })

/-- Sends a signal to a process and to all that it made, the oldest first. -/
def sendBelow (p : Proc) (pid signal : Nat) : Proc :=
  let pids := (p.world.tasks.reverse.map Task.pid).filter fun n => p.world.isAbove pid 64 n
  pids.foldl (fun p n => (p.send n signal).2) p

/-- Counts a command.  Commands take no time, unless there are so many that it shows; when
there are too many, nothing comes of the process. -/
def spend (p : Proc) : Proc :=
  match p.world.budget with
  | 0 => p.stick
  | n + 1 =>
    let p := { p with world := { p.world with budget := n } }
    if n + World.haste < World.patience then p.pause World.effort else p

/-- The process when it becomes a program: what it held besides is closed. -/
def anew (p : Proc) : Proc :=
  { p with kept := [], catches := [] }.release

/-- A process with which everything starts, on some files: it has nothing to read and
writes to the channels. -/
def first (files : Files) (f : Foresight) (pid : Nat) (cwd : List Octets) : Proc :=
  let fds := [(0, Stream.device .null), (1, .conduit (.channel .out)),
    (2, .conduit (.channel .err))]
  let task : Task := ⟨pid, 0, [],
    [(.channel .out, none), (.channel .err, none)], none, false⟩
  { world := { World.start files f with tasks := [task] }, pid := pid, clock := 0,
    fds := fds, kept := [], cwd := cwd, environment := [], ignores := [], catches := [],
    pending := [], going := .running }

end Proc

end Offspring
