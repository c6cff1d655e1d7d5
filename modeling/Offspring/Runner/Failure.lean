import Offspring.System.Files
import Offspring.Text.Decimal
/-!
# Failures of supervised programs

Everything that can go wrong between preparing a directory for a program and
collecting what it left.  A failure has a message and the messages of what caused
it, outermost first.
-/

namespace Offspring

/-- Why a file or a folder cannot be made. -/
inductive NameError where
  /-- The path holds a NUL. -/
  | nul
  /-- The system refuses. -/
  | file (e : FileError)
  deriving DecidableEq, Repr

/-- Why a program cannot be started. -/
inductive StartError where
  /-- The path or an argument holds a NUL. -/
  | nul
  /-- The system refuses. -/
  | file (e : FileError)
  deriving DecidableEq, Repr

/-- What went wrong. -/
inductive Failure where
  /-- The directory to work in cannot be made. -/
  | workspace (e : NameError)
  /-- The path of the program names no file. -/
  | noFileName
  /-- The log cannot be made. -/
  | logfile (e : NameError)
  /-- The program cannot be started. -/
  | start (e : StartError)
  /-- A channel carried bytes that are no text. -/
  | illFormed
  /-- The reader of standard output panicked. -/
  | readerPanicked
  /-- The program, or who holds its channels, did not end in time. -/
  | timedOut
  /-- Standard output ended before it was as expected. -/
  | closed
  /-- Standard output was not as expected in time. -/
  | late
  deriving DecidableEq, Repr

/-- What an error of the system says, with its number. -/
def FileError.message (e : FileError) : Text :=
  e.text.toList ++ " (os error ".toList ++ Decimal.ofNat e.number ++ [')']

/-- What a name error says. -/
def NameError.message : NameError → Text
  | nul => "file name contained an unexpected NUL byte".toList
  | file e => e.message

/-- What a start error says. -/
def StartError.message : StartError → Text
  | nul => "nul byte found in provided data".toList
  | file e => e.message

namespace Failure

/-- What a failure says. -/
def message : Failure → Text
  | workspace _ => "create workspace failed".toList
  | noFileName => "program has no file name".toList
  | logfile _ => "open logfile failed".toList
  | start _ => "spawn command failed".toList
  | illFormed => "invalid utf-8".toList
  | readerPanicked => "stdout handle join failed".toList
  | timedOut => "command timed out".toList
  | closed => "stdout closed before the expected output".toList
  | late => "expected output did not appear in time".toList

/-- What the causes of a failure say, if that is fixed. -/
def causes? : Failure → Option (List Text)
  | workspace e => some [e.message]
  | noFileName => some []
  | logfile e => some [e.message]
  | start e => some [e.message]
  | illFormed => some []
  | readerPanicked => none
  | timedOut => some ["deadline has elapsed".toList]
  | closed => some ["channel closed".toList]
  | late => some ["deadline has elapsed".toList]

end Failure

end Offspring
