import Offspring.ForkProgram.Run
import Offspring.Text.Lines
/-!
# Both processes of the fork program

After the fork two processes run side by side.  They write to one screen, each has
its own sleeps and interruptions, and the parent waits for the child.  `Pair` holds
both, and `Pair.Step` is one move of either: the order of the moves is free.  A process keeps
its calls and what it met in them: the replies to its waits, and the signals into its sleeps.

The system keeps to three rules.  A wait may be interrupted or report a stop or a
resumption at any time, any number of times; it reports the end of the child only
after the child has ended, and once; and what it reports is that end.
-/

namespace Offspring.ForkProgram

/-- Where a process of the pair is. -/
inductive Place where
  /-- About to print its line. -/
  | printing
  /-- Asleep, with so much time left. -/
  | sleeping (left : Duration)
  /-- Waiting for the child. -/
  | waiting
  /-- Ended by itself. -/
  | finished (f : Finish)
  /-- Killed by a signal. -/
  | killed (signal : Int)
  deriving DecidableEq, Repr

/-- A process of the pair. -/
structure Life where
  handle : Handle
  place : Place
  /-- What it has printed. -/
  out : Stdout
  /-- What it has said on standard error. -/
  complaint : Text
  /-- The calls that it has come back from, with the fork as the first. -/
  calls : List Call
  /-- What its waits were replied. -/
  waits : List WaitReply
  /-- The whole seconds after which a signal came into each of its sleeps, if they were fewer
  than the sleep asked for. -/
  signals : List Nat
  deriving DecidableEq, Repr

namespace Life

/-- A process right after the fork. -/
def start (h : Handle) : Life := ⟨h, .printing, .empty, [], [⟨.fork, 0⟩], [], []⟩

/-- Comes back from a call. -/
def called (r : Request) (l : Life) : Life :=
  { l with calls := l.calls ++ [⟨r, l.out.bytesWritten⟩] }

/-- Ends a process, with all that it has printed written. -/
def finish (f : Finish) (complaint : Text) (l : Life) : Life :=
  { l with place := .finished f, out := l.out.flush, complaint := complaint }

/-- Leaves the sleep: the parent goes to wait, and the child ends. -/
def awake (l : Life) : Life :=
  match l.handle with
  | .parent _ => { l with place := .waiting }
  | .child => l.finish (.exited success) l.complaint

/-- Goes on with so much time left to sleep. -/
def rest (left : Duration) (l : Life) : Life :=
  if left.isZero then l.awake else { l with place := .sleeping left }

/-- Prints the line. -/
def print (secs : Int) (l : Life) : Life :=
  { l with out := l.out.print (roleLine l.handle.role secs) }.rest (duration secs)

/-- Sleeps for the time left, or until a signal if that comes before, after `n` seconds. -/
def sleep (left : Duration) (n : Nat) (l : Life) : Life :=
  let l := { l.called (.sleep left.secs left.nanos) with signals := l.signals ++ [n] }
  if n < left.secs then l.rest (left.after n) else l.awake

/-- Gets a reply to its wait for the process `pid`. -/
def receive (name : Text) (pid : Pid) (r : WaitReply) (l : Life) : Life :=
  let l := { l.called (.waitpid pid) with waits := l.waits ++ [r] }
  match r.judge pid with
  | .again => l
  | .ends e => l.finish (conclude name pid e).1 (conclude name pid e).2

/-- How a process that has ended died, as its parent will learn. -/
def death? (l : Life) : Option Death :=
  match l.place with
  | .finished (.exited status) => some (.exit status)
  | .killed signal => some (.signal signal)
  | _ => none

/-- What a process that has ended by itself leaves. -/
def record? (l : Life) : Option Record :=
  match l.place with
  | .finished f => some ⟨f, l.out.written, l.complaint, l.calls⟩
  | _ => none

end Life

/-- The two processes. -/
structure Pair where
  parent : Life
  child : Life
  /-- What both have written, in order. -/
  screen : Text
  /-- Whether the parent has learned of the end of the child. -/
  reaped : Bool
  deriving DecidableEq, Repr

/-- A reply to a wait that tells of no end: an interruption, no change, or a report
that some process was stopped or resumed. -/
inductive Undecided : WaitReply → Prop where
  | interrupted : Undecided (.failed Errno.interrupted)
  | unchanged (raw : Int) : Undecided (.returned 0 raw)
  | stopped (pid raw signal : Int) (h : Report.decode raw = .ok (.stopped signal)) :
      Undecided (.returned pid raw)
  | traced (pid raw : Int) (h : Report.decode raw = .ok .traced) :
      Undecided (.returned pid raw)
  | continued (pid raw : Int) (h : Report.decode raw = .ok .continued) :
      Undecided (.returned pid raw)

/-- The raw statuses that tell of a death; a signal may have left a core dump. -/
inductive Tells : Death → Int → Prop where
  | exit (status : Int) : Tells (.exit status) (Death.exit status).raw
  | signal (number : Int) : Tells (.signal number) (Death.signal number).raw
  | dumped (number : Int) : Tells (.signal number) ((Death.signal number).raw + 128)

namespace Pair

/-- Both processes right after a fork that returned `pid` to the parent. -/
def start (pid : Pid) : Pair :=
  ⟨.start (.parent pid), .start .child, [], false⟩

/-- The pair after a move of the parent. -/
def setParent (p : Pair) (l : Life) : Pair :=
  { p with parent := l, screen := p.screen ++ l.out.written.drop p.parent.out.written.length }

/-- The pair after a move of the child. -/
def setChild (p : Pair) (l : Life) : Pair :=
  { p with child := l, screen := p.screen ++ l.out.written.drop p.child.out.written.length }

/-- One move of a process that does not concern the other. -/
inductive Own (secs : Int) : Life → Life → Prop where
  | print (l : Life) (h : l.place = .printing) : Own secs l (l.print secs)
  | sleep (l : Life) (left : Duration) (n : Nat) (h : l.place = .sleeping left) :
      Own secs l (l.sleep left n)

/-- One move of the pair, when the program was called by `name` for `secs` seconds
and the child has the pid `pid`. -/
inductive Step (name : Text) (secs : Int) (pid : Pid) : Pair → Pair → Prop where
  | parent (p : Pair) (l : Life) (h : Own secs p.parent l) :
      Step name secs pid p (p.setParent l)
  | child (p : Pair) (l : Life) (h : Own secs p.child l) :
      Step name secs pid p (p.setChild l)
  | undecided (p : Pair) (r : WaitReply) (h : p.parent.place = .waiting)
      (hr : Undecided r) :
      Step name secs pid p (p.setParent (p.parent.receive name pid r))
  | reap (p : Pair) (d : Death) (raw : Int) (h : p.parent.place = .waiting)
      (hd : p.child.death? = some d) (hraw : Tells d raw) (hr : p.reaped = false) :
      Step name secs pid p
        { p.setParent (p.parent.receive name pid (.returned pid raw)) with reaped := true }

/-- A move in which a signal kills the child. -/
inductive Kill (signal : Int) : Pair → Pair → Prop where
  | child (p : Pair) (h : p.child.death? = none) :
      Kill signal p { p with child := { p.child with place := .killed signal } }

/-- Any number of moves, none of them a kill. -/
inductive Reach (name : Text) (secs : Int) (pid : Pid) : Pair → Pair → Prop where
  | refl (p : Pair) : Reach name secs pid p p
  | step {p q r : Pair} (h : Reach name secs pid p q) (hs : Step name secs pid q r) :
      Reach name secs pid p r

end Pair

end Offspring.ForkProgram
