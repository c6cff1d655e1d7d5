import Offspring.System.Stdout
/-!
# Diagnostics

A diagnostic is one line on standard error: the name of the program, a colon and a
blank, what is wrong, and, when an error caused it, a colon, a blank and that error.
A diagnostic that ends the process ends it with `failure`.
-/

namespace Offspring

/-- The status of a process that did what it was asked. -/
def success : Int := 0

/-- The status of a process that gave up. -/
def failure : Int := 1

namespace Diagnostic

/-- A problem with the error behind it. -/
def because (problem cause : Text) : Text :=
  problem ++ ": ".toList ++ cause

/-- The line that tells of a problem. -/
def line (name problem : Text) : Text :=
  name ++ ": ".toList ++ problem ++ "\n".toList

end Diagnostic

/-- The ways to tell of a problem. -/
inductive Notice (α : Type) where
  /-- Tells it and goes on. -/
  | message
  /-- Tells it with its cause and goes on. -/
  | messageCause
  /-- Tells it and ends the process. -/
  | exit
  /-- Tells it with its cause and ends the process. -/
  | exitCause
  /-- Unwraps a result, and ends the process like `exitCause` if there is none. -/
  | orExit (result : Option α)
  deriving DecidableEq, Repr

/-- What a process that told of a problem leaves. -/
structure Told (α : Type) where
  status : Int
  stdout : Text
  stderr : Text
  value : Option α
  deriving DecidableEq, Repr

/-- Tells of a problem, in a process that has printed something, and lets the
process run to its end. -/
def Notice.tell {α : Type} (n : Notice α) (name problem cause : Text) (out : Stdout) :
    Told α :=
  let plain := Diagnostic.line name problem
  let caused := Diagnostic.line name (Diagnostic.because problem cause)
  match n with
  | .message => ⟨success, out.flush.written, plain, none⟩
  | .messageCause => ⟨success, out.flush.written, caused, none⟩
  | .exit => ⟨failure, out.flush.written, plain, none⟩
  | .exitCause => ⟨failure, out.flush.written, caused, none⟩
  | .orExit (some v) => ⟨success, out.flush.written, [], some v⟩
  | .orExit none => ⟨failure, out.flush.written, caused, none⟩

end Offspring
