import Offspring.Command.Timeline
import Offspring.System.Signal
import Offspring.Text.Decimal
/-!
# Commands that write and pause

The simplest command is a shell that writes and pauses in turn and then ends, or never
does.  Each write is made by a process of its own: when nobody reads the channel any
more, that one process is killed and the command goes on.
-/

namespace Offspring

/-- One thing that a command does. -/
inductive Action where
  | write (c : Channel) (bytes : Bytes)
  /-- Pauses for so many microseconds. -/
  | pause (micros : Nat)
  deriving DecidableEq, Repr

/-- How a command is told to go out. -/
inductive Finish where
  | exit (status : Int)
  | signal (number : Int)
  /-- It goes on for ever, and holds its channels. -/
  | hang
  deriving DecidableEq, Repr

/-- What a command does. -/
structure Emission where
  actions : List Action
  finish : Finish
  deriving DecidableEq, Repr

namespace Finish

/-- The death that a finish is, if any.  A shell cannot exit with a status below zero,
and does not know every signal; a signal that is harmless leaves it to its end. -/
def death? : Finish → Option Death
  | exit status => some (.exit (if status < 0 then 2 else exitByte status))
  | signal number =>
    if number < 0 || Signal.count ≤ number.toNat then some (.exit 2)
    else if number = 0 || Signal.isHarmless number.toNat then some (.exit 0)
    else if number.toNat = Signal.stop then none
    else some (.signal number)
  | hang => none

/-- What a shell says about a finish that it cannot bring about. -/
def complaint : Finish → Text
  | exit status =>
    if status < 0 then
      "sh: 1: exit: Illegal number: ".toList ++ Decimal.ofInt status ++ ['\n']
    else []
  | signal number =>
    if number < 0 || Signal.count ≤ number.toNat then
      "sh: 1: kill: Illegal option -".toList ++ (Decimal.ofInt number).take 1 ++ ['\n']
    else []
  | hang => []

end Finish

namespace Emission

/-- Whether a channel is broken for who writes to it at a time. -/
def isBroken (breaks : List Break) (c : Channel) (time : Nat) : Bool :=
  breaks.any fun b => b.conduit = .channel c && b.time < time

/-- The writes of some actions from a time on, and when they are over. -/
def schedule (breaks : List Break) (clock : Nat) : List Action → List Write × Nat
  | [] => ([], clock)
  | .write c bytes :: rest =>
    let (writes, done) := schedule breaks clock rest
    (if isBroken breaks c clock then writes else ⟨clock, c, bytes⟩ :: writes, done)
  | .pause micros :: rest => schedule breaks (clock + micros) rest

/-- What a command does in time. -/
def program (e : Emission) : Program := fun breaks =>
  let said : List Action :=
    match e.finish.complaint with
    | [] => []
    | t => [.write .err t.encode]
  let (writes, done) := schedule breaks 0 (e.actions ++ said)
  match e.finish.death? with
  | none => ⟨writes, none, none, none⟩
  | some d => ⟨writes, some done, some done, some (done, d)⟩

end Emission

end Offspring
