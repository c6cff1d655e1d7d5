import Offspring.Text.Basic
/-!
# Line-buffered output

Printed text is held back until its line is complete: everything up to the last
newline printed so far is written at once, and the rest waits for the next newline
or the next flush.  What a process has written can be seen by others; what is
pending exists in the process alone, and a process made by a fork would inherit it.

Only so many bytes can wait.  Text without a newline that does not fit beside what is
pending has that written first, and text that is as large as all the room is written
too.  A text is never divided but at its last newline.
-/

namespace Offspring

/-- The standard output of a process. -/
structure Stdout where
  /-- What has reached the descriptor. -/
  written : Text
  /-- What waits for a newline, for a flush, or for text that needs its room. -/
  pending : Text
  deriving DecidableEq, Repr

namespace Stdout

/-- The number of bytes that can be pending. -/
def room : Nat := 1024

/-- Nothing printed yet. -/
def empty : Stdout := ⟨[], []⟩

/-- Everything printed so far. -/
def printed (o : Stdout) : Text :=
  o.written ++ o.pending

/-- The number of bytes written so far. -/
def bytesWritten (o : Stdout) : Nat :=
  o.written.size

/-- Writes what is pending. -/
def flush (o : Stdout) : Stdout :=
  ⟨o.printed, []⟩

/-- Writes what is pending and then a text. -/
def write (o : Stdout) (t : Text) : Stdout :=
  ⟨o.printed ++ t, []⟩

/-- Writes what is pending if a text does not fit beside it. -/
def makeRoom (o : Stdout) (t : Text) : Stdout :=
  if o.pending.size + t.size ≤ room then o else o.flush

/-- Holds back a text without a newline, as far as there is room. -/
def hold (o : Stdout) (t : Text) : Stdout :=
  let o := o.makeRoom t
  if t.size < room then { o with pending := o.pending ++ t } else o.write t

/-- Prints a text. -/
def print (o : Stdout) (t : Text) : Stdout :=
  match t.cutAfterNewline with
  | ([], rest) => o.hold rest
  | (ready, rest) => (o.write ready).hold rest

@[simp] theorem printed_empty : printed empty = [] := rfl

@[simp] theorem printed_flush (o : Stdout) : o.flush.printed = o.printed := by
  simp [flush, printed]

@[simp] theorem written_flush (o : Stdout) : o.flush.written = o.printed := rfl

/-- After a flush nothing is pending. -/
@[simp] theorem pending_flush (o : Stdout) : o.flush.pending = [] := rfl

@[simp] theorem printed_write (o : Stdout) (t : Text) :
    (o.write t).printed = o.printed ++ t := by
  simp [write, printed]

@[simp] theorem printed_makeRoom (o : Stdout) (t : Text) :
    (o.makeRoom t).printed = o.printed := by
  unfold makeRoom
  split <;> simp

@[simp] theorem printed_hold (o : Stdout) (t : Text) :
    (o.hold t).printed = o.printed ++ t := by
  have h := printed_makeRoom o t
  unfold hold
  split
  · simp only [printed] at h ⊢
    rw [← List.append_assoc, h]
  · rw [printed_write, h]

/-- However a text is held back, it is printed after all that was. -/
@[simp] theorem printed_print (o : Stdout) (t : Text) :
    (o.print t).printed = o.printed ++ t := by
  have ht := Text.cutAfterNewline_append t
  unfold print
  split
  · next rest h => simp_all
  · next ready rest _ h => simp_all

end Stdout

end Offspring
