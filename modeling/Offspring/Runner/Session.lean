import Offspring.Runner.Launch
import Offspring.Runner.Trial
/-!
# Sessions

A session is a row of orders to whoever watches a program: wait for lines or text,
look at what has come, and at last collect the program.  After that there is nothing
to give orders about.
-/

namespace Offspring

/-- An order to whoever watches a program. -/
inductive Order where
  | waitLines (expected : List Text) (timeout : Nat)
  | waitText (start : Nat) (part : Text)
  /-- Looks at the content of standard output. -/
  | look
  /-- Asks whether the program has a pid. -/
  | hasId
  /-- Asks whether so many milliseconds have passed. -/
  | elapsed (millis : Nat)
  /-- Collects the program, and asks whether that took so many milliseconds. -/
  | collect (timeout : Nat) (atLeast : Option Nat)
  deriving DecidableEq, Repr

/-- What an order brings. -/
inductive Reply where
  | done
  /-- The wait failed; `seen` is the content from the byte asked for. -/
  | failed (f : Failure) (seen : Option Text)
  | content (t : Text) (length : Nat)
  | hasId (b : Bool)
  | elapsed (b : Bool)
  | collected (o : Outcome) (atLeast : Option Bool)
  | panicked
  /-- The program was collected before. -/
  | gone
  /-- The wait does not end. -/
  | never
  deriving DecidableEq, Repr

/-- Whether a time in microseconds is at least some milliseconds. -/
def reaches (micros n : Nat) : Bool :=
  millis n ≤ micros

/-- Whether collecting a program took so many milliseconds. -/
def Outcome.reaches (o : Outcome) (atLeast : Option Nat) : Option Bool :=
  match o, atLeast with
  | .output o, some n => some (Offspring.reaches o.elapsed n)
  | _, _ => none

namespace Trial

/-- The reply to a wait; the content is told if asked for. -/
def replyTo (w : Waited) (tells : Bool) : Reply :=
  match w with
  | .met => .done
  | .closed seen => .failed .closed (if tells then some seen else none)
  | .late => .failed .late none
  | .panicked => .panicked
  | .never => .never

/-- One order, to whoever watches a program that was not collected. -/
def obey (t : Trial) : Order → Reply × Option Trial
  | .waitLines expected timeout =>
    let (w, t) := t.waitLines expected timeout
    (replyTo w false, some t)
  | .waitText start part =>
    let (w, t) := t.waitText start part
    (replyTo w true, some t)
  | .look =>
    let r := t.capture.out
    (if r.spoilt then .panicked else .content r.content r.length, some t)
  | .hasId => (.hasId true, some t)
  | .elapsed n => (.elapsed (reaches t.now n), some t)
  | .collect timeout atLeast =>
    let o := t.collect timeout
    (.collected o (o.reaches atLeast), none)

/-- A row of orders. -/
def session : Option Trial → List Order → List Reply
  | _, [] => []
  | none, _ :: orders => .gone :: session none orders
  | some t, o :: orders =>
    let (reply, t) := t.obey o
    reply :: session t orders

end Trial

/-- A program started, or why it was not. -/
def Launch.trial : Launch Program → Except Failure Trial
  | .unlogged f => .error f
  | .unstarted _ f => .error f
  | .started _ p => .ok (.start p)

/-- A program started by a runner and collected. -/
def Runner.runTest (r : Runner) (h : Host Program) (program : Text) (args : List Text)
    (timeout : Nat) : Outcome :=
  match (r.launch h program args).trial with
  | .error f => .failed f
  | .ok t => t.collect timeout

end Offspring
