import Offspring.Text.Octets
import Offspring.Text.Decimal
/-!
# Signals

A signal is a number with a name.  Most end a process that does nothing about them; a
few do nothing then, and one stops it.
-/

namespace Offspring.Signal

/-- Ends a process whatever it does. -/
def kill : Nat := 9

/-- Stops a process whatever it does. -/
def stop : Nat := 19

/-- Lets a stopped process go on. -/
def resume : Nat := 18

/-- Tells a process that nobody reads what it writes. -/
def brokenPipe : Nat := 13

/-- Asks a process to end. -/
def terminate : Nat := 15

/-- How many signals there are, with zero. -/
def count : Nat := 65

/-- Whether a signal does nothing to a process that does nothing about it.  Three that
ask a process to stop are among them, as nobody could make it go on. -/
def isHarmless (n : Nat) : Bool :=
  n = 17 || n = 18 || n = 23 || n = 28 || (20 ≤ n && n ≤ 22)

/-- The names of the first signals in order. -/
def firstNames : List String :=
  ["0", "HUP", "INT", "QUIT", "ILL", "TRAP", "ABRT", "BUS", "FPE", "KILL", "USR1", "SEGV",
    "USR2", "PIPE", "ALRM", "TERM", "16", "CHLD", "CONT", "STOP", "TSTP", "TTIN", "TTOU",
    "URG", "XCPU", "XFSZ", "VTALRM", "PROF", "WINCH", "IO", "PWR", "SYS", "32", "33",
    "RTMIN"]

/-- The name of a signal. -/
def name (n : Nat) : Octets :=
  match firstNames[n]? with
  | some s => Octets.of s
  | none =>
    if n = 64 then Octets.of "RTMAX"
    else if n < 50 then Octets.of "RTMIN+" ++ Decimal.ofNat (n - 34)
    else Octets.of "RTMAX-" ++ Decimal.ofNat (64 - n)

/-- The signal of a name, in capitals or not, or of a number. -/
def find? (t : Octets) : Option Nat :=
  let big := t.map Char.toUpper
  if !t.isEmpty && t.all Char.isDigit then
    if Decimal.value t < count then some (Decimal.value t) else none
  else (List.range count).find? fun n => name n = big

/-- What the first signals mean. -/
def meanings : List String :=
  ["", "Hangup", "Interrupt", "Quit", "Illegal instruction", "Trace/breakpoint trap",
    "Aborted", "Bus error", "Floating point exception", "Killed", "User defined signal 1",
    "Segmentation fault", "User defined signal 2", "Broken pipe", "Alarm clock", "Terminated",
    "Stack fault", "Child exited", "Continued", "Stopped (signal)", "Stopped",
    "Stopped (tty input)", "Stopped (tty output)", "Urgent I/O condition",
    "CPU time limit exceeded", "File size limit exceeded", "Virtual timer expired",
    "Profiling timer expired", "Window changed", "I/O possible", "Power failure",
    "Bad system call"]

/-- What a signal means. -/
def meaning (n : Nat) : Octets :=
  match meanings[n]? with
  | some s => Octets.of s
  | none =>
    if n < 34 then Octets.of "Unknown signal " ++ Decimal.ofNat n
    else Octets.of "Real-time signal " ++ Decimal.ofNat (n - 34)

end Offspring.Signal
