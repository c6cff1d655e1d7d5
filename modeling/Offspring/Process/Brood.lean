import Offspring.ForkProgram.Pair
import Offspring.Process.Family
/-!
# A process and its children side by side

In a `Family` a child runs to its end as soon as it is made.  In a `Brood` children take
their time: each goes on by itself, in moves that come before, between and after the steps
of its parent, and all write to one screen.  A child starts as a copy of its parent, with
what the parent has pending.

The system keeps to these rules.  A new child gets a pid that no child had before.  A wait
may get idle replies, any number of them; it goes on until the child that it is for has
ended, reaps that child and tells of its death; and it fails at once if there is no child
left to reap.
-/

namespace Offspring

open ForkProgram (Undecided Tells)

/-- Whether a deed ends in an exit or by a known signal. -/
def Deed.Known : Deed → Prop
  | exits _ _ => True
  | killed signal => 1 ≤ signal ∧ signal ≤ 31

/-- How far a child has come. -/
inductive Child.Stage where
  | working
  /-- It has printed its text. -/
  | spoken
  /-- It has ended and can be reaped. -/
  | ended
  | reaped
  deriving DecidableEq, Repr

/-- A child that lives beside its parent. -/
structure Child where
  pid : Pid
  deed : Deed
  /-- Its own copy of the pending text, and what it has written itself. -/
  out : Stdout
  stage : Child.Stage
  deriving DecidableEq, Repr

namespace Child

/-- A child right after the fork. -/
def start (pid : Pid) (deed : Deed) (pending : Text) : Child :=
  ⟨pid, deed, ⟨[], pending⟩, .working⟩

/-- Prints its text. -/
def speak (c : Child) (t : Text) : Child :=
  { c with out := c.out.print t, stage := .spoken }

/-- Exits, with all that it has printed written. -/
def exit (c : Child) (status : Int) : Child :=
  { c with out := (c.out.exit status).2, stage := .ended }

/-- Is killed, and what it has pending is lost. -/
def die (c : Child) : Child :=
  { c with stage := .ended }

/-- Is reaped. -/
def reap (c : Child) : Child :=
  { c with stage := .reaped }

@[simp] theorem stage_speak (c : Child) (t : Text) : (c.speak t).stage = .spoken := rfl

@[simp] theorem stage_exit (c : Child) (status : Int) : (c.exit status).stage = .ended := rfl

@[simp] theorem stage_die (c : Child) : c.die.stage = .ended := rfl

@[simp] theorem stage_reap (c : Child) : c.reap.stage = .reaped := rfl

/-- One move of a child. -/
inductive Move : Child → Child → Prop where
  | speak (c : Child) (status : Int) (t : Text) (hstage : c.stage = .working)
      (hdeed : c.deed = .exits status t) : Move c (c.speak t)
  | exit (c : Child) (status : Int) (t : Text) (hstage : c.stage = .spoken)
      (hdeed : c.deed = .exits status t) : Move c (c.exit status)
  | die (c : Child) (signal : Int) (hstage : c.stage = .working)
      (hdeed : c.deed = .killed signal) : Move c c.die

end Child

/-- Who writes. -/
inductive Writer where
  | parent
  /-- The child that was made at this place. -/
  | child (place : Nat)
  deriving DecidableEq, Repr

/-- A process with all children it has made, in the order of the forks. -/
structure Brood where
  out : Stdout
  handles : List Handle
  children : List Child
  /-- What has reached the descriptor, in order, each text with who wrote it. -/
  screen : List (Writer × Text)
  deriving DecidableEq, Repr

namespace Brood

/-- A process without children. -/
def start : Brood := ⟨.empty, [], [], []⟩

/-- The parent goes on with this output; what it has written since is on the screen. -/
def put (b : Brood) (out : Stdout) : Brood :=
  { b with out, screen := b.screen ++ [(.parent, out.written.drop b.out.written.length)] }

/-- A child after a move; what it has written in it is on the screen. -/
def putChild (b : Brood) (place : Nat) (before after : Child) : Brood :=
  { b with
    children := b.children.set place after
    screen := b.screen ++ [(.child place, after.out.written.drop before.out.written.length)] }

/-- The parent forks, and its child starts with what is pending then. -/
def fork (b : Brood) (pid : Pid) (deed : Deed) : Brood :=
  let b := b.put b.out.flush
  { b with
    handles := b.handles ++ [.parent pid]
    children := b.children ++ [.start pid deed b.out.pending] }

/-- Some child moves. -/
inductive Own : Brood → Brood → Prop where
  | child (b : Brood) (place : Nat) (c c' : Child) (hc : b.children[place]? = some c)
      (hm : c.Move c') : Own b (b.putChild place c c')

/-- What decides a wait for `target`, and the brood after it. -/
inductive Reply (target : Pid) : Brood → WaitReply → Brood → Prop where
  /-- No such child is left to reap. -/
  | noChild (b : Brood) (h : ∀ c ∈ b.children, c.pid = target → c.stage = .reaped) :
      Reply target b (.failed Errno.noChild) b
  /-- The child has ended, and is reaped. -/
  | ended (b : Brood) (place : Nat) (c : Child) (raw : Int) (hc : b.children[place]? = some c)
      (hpid : c.pid = target) (hstage : c.stage = .ended) (hraw : Tells c.deed.death raw) :
      Reply target b (.returned target raw) { b with children := b.children.set place c.reap }

/-- A step of the parent, what it says, and the brood after it. -/
inductive Step : Brood → FamilyStep → Answer → Brood → Prop where
  | print (b : Brood) (t : Text) : Step b (.print t) .done (b.put (b.out.print t))
  | fork (b : Brood) (pid : Pid) (deed : Deed) (hpid : 0 < pid)
      (hnew : ∀ c ∈ b.children, c.pid ≠ pid) (hdeed : deed.Known) :
      Step b (.fork deed) (.forked b.handles.length (.parent pid)) (b.fork pid deed)
  | wait (b b' : Brood) (place : Nat) (pid : Pid) (idle : List WaitReply) (r : WaitReply)
      (hplace : b.handles[place]? = some (.parent pid)) (hidle : ∀ i ∈ idle, Undecided i)
      (hr : Reply pid b r b') :
      Step b (.wait place) (.waited (waitOn pid (idle ++ [r])).1) b'
  | noChildHandle (b : Brood) (place : Nat)
      (hplace : ∀ pid, b.handles[place]? ≠ some (.parent pid)) :
      Step b (.wait place) .noChildHandle b

/-- The steps that a parent takes, with what they say, and the brood after them and after
some moves of the children. -/
inductive Run (b : Brood) : List (FamilyStep × Answer) → Brood → Prop where
  | refl : Run b [] b
  | own {log : List (FamilyStep × Answer)} {m b' : Brood} (h : Run b log m) (hm : Own m b') :
      Run b log b'
  | step {log : List (FamilyStep × Answer)} {m b' : Brood} {s : FamilyStep} {a : Answer}
      (h : Run b log m) (hs : Step m s a b') : Run b (log ++ [(s, a)]) b'

/-- Everything that is on the screen, and what the parent has still pending. -/
def printed (b : Brood) : Text :=
  b.screen.flatMap Prod.snd ++ b.out.pending

end Brood

end Offspring
