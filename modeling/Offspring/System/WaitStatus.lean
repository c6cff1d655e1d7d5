/-!
# Wait statuses

A waiting process gets a raw status: a number whose low seven bits say what
happened to the child.  Zero is an exit, with the exit code in the next byte; 1 to
126 is a death by that signal; 127 is a stop (with the signal in the next byte) or,
for one number only, a resumption.  Signals 1 to 31 are known; a status that
carries any other signal is refused.
-/

namespace Offspring

/-- A process identifier. -/
abbrev Pid := Int

/-- What a wait status reports of a child. -/
inductive Report where
  /-- It exited with a code. -/
  | exited (code : Int)
  /-- A signal killed it. -/
  | killed (signal : Int)
  /-- A signal stopped it. -/
  | stopped (signal : Int)
  /-- It stopped at a traced system call. -/
  | traced
  /-- It was resumed. -/
  | continued
  deriving DecidableEq, Repr

/-- Why a raw status is not understood. -/
inductive Report.Refusal where
  /-- It carries a signal that is not known. -/
  | unknownSignal
  /-- It has none of the forms of a wait status. -/
  | noStatus
  deriving DecidableEq, Repr

namespace Report

/-- Whether a signal is known. -/
def isKnownSignal (s : Int) : Bool :=
  1 ≤ s && s ≤ 31

/-- The second byte of a stop at a traced system call. -/
def tracedCall : Int := 0x85

/-- The raw status of a resumption. -/
def resumption : Int := 0xFFFF

/-- What a raw status reports. -/
def decode (raw : Int) : Except Refusal Report :=
  let low := raw % 128
  let second := raw / 256 % 256
  if low = 0 then .ok (.exited second)
  else if low < 127 then
    if isKnownSignal low then .ok (.killed low) else .error .unknownSignal
  else if raw % 256 = 127 then
    if second = tracedCall then .ok .traced
    else if isKnownSignal second then .ok (.stopped second)
    else .error .unknownSignal
  else if raw = resumption then .ok .continued
  else .error .noStatus

end Report

/-- How a child ends. -/
inductive Death where
  /-- By exiting with a status; the system keeps its low byte. -/
  | exit (status : Int)
  /-- By a signal. -/
  | signal (number : Int)
  deriving DecidableEq, Repr

/-- The part of an exit status that the system keeps. -/
def exitByte (status : Int) : Int :=
  status % 256

/-- The raw status of a death. -/
def Death.raw : Death → Int
  | .exit status => exitByte status * 256
  | .signal number => number

example : Report.decode 0x8B = .ok (.killed 11) ∧
    Report.decode 0x2A00 = .ok (.exited 42) ∧
    Report.decode 34 = .error .unknownSignal := ⟨rfl, rfl, rfl⟩

end Offspring
