import Offspring.Text.Basic
/-!
# Reading UTF-8

A machine that takes one byte at a time.  Between characters it is at `start`;
inside a character it knows the bytes it holds, the value they give so far, and
which bytes may stand at each place that is still open.  The spans of `opens` are
the table of well-formed byte sequences of the Unicode standard: the second byte
is narrowed after E0 and F0 (no overlong form), after ED (no surrogate) and after
F4 (nothing above U+10FFFF), and C0, C1 and F5 to FF open no character.

Two readers run on the machine:

* `scan` is strict: it stops at the first byte that no well-formed text can hold,
  and says whether the bytes ended between characters, inside one, or at such a
  byte;
* `lossy` goes on: every maximal run of bytes that starts a character but cannot
  be finished becomes one replacement character.
-/

namespace Offspring.Utf8

/-- The bytes that may stand at one place of an encoded character. -/
structure Span where
  lo : UInt8
  hi : UInt8
  deriving DecidableEq, Repr

/-- Whether a byte lies in the span. -/
def Span.holds (s : Span) (b : UInt8) : Bool :=
  s.lo ≤ b && b ≤ s.hi

/-- The span of a continuation byte that nothing narrows. -/
def Span.tail : Span := ⟨0x80, 0xBF⟩

/-- Where the machine stands. -/
inductive State where
  /-- Between characters. -/
  | start
  /-- Inside a character: the bytes held, their value, the span of the next byte
  and the spans of those after it. -/
  | inside (held : Bytes) (value : Nat) (next : Span) (later : List Span)
  deriving DecidableEq, Repr

/-- What one byte does. -/
inductive Move where
  /-- It opens or continues a character. -/
  | into (q : State)
  /-- It completes a character. -/
  | char (c : Char)
  /-- No well-formed text has it here. -/
  | refuse
  deriving DecidableEq, Repr

/-- What a first byte does. -/
def opens (b : UInt8) : Move :=
  if b ≤ 0x7F then .char (Char.ofNat b.toNat)
  else if b < 0xC2 then .refuse
  else if b ≤ 0xDF then .into (.inside [b] (b.toNat - 0xC0) .tail [])
  else if b = 0xE0 then .into (.inside [b] 0 ⟨0xA0, 0xBF⟩ [.tail])
  else if b = 0xED then .into (.inside [b] 0xD ⟨0x80, 0x9F⟩ [.tail])
  else if b ≤ 0xEF then .into (.inside [b] (b.toNat - 0xE0) .tail [.tail])
  else if b = 0xF0 then .into (.inside [b] 0 ⟨0x90, 0xBF⟩ [.tail, .tail])
  else if b ≤ 0xF3 then .into (.inside [b] (b.toNat - 0xF0) .tail [.tail, .tail])
  else if b = 0xF4 then .into (.inside [b] 4 ⟨0x80, 0x8F⟩ [.tail, .tail])
  else .refuse

/-- The value of a character after one more continuation byte. -/
def widen (value : Nat) (b : UInt8) : Nat :=
  value * 64 + (b.toNat - 0x80)

/-- One byte. -/
def State.step : State → UInt8 → Move
  | .start, b => opens b
  | .inside held value next later, b =>
    if next.holds b then
      match later with
      | [] => .char (Char.ofNat (widen value b))
      | s :: later => .into (.inside (held ++ [b]) (widen value b) s later)
    else .refuse

/-- The bytes of the character that is still open. -/
def State.held : State → Bytes
  | .start => []
  | .inside held _ _ _ => held

/-- How a scan ended. -/
inductive Ending where
  /-- Between characters. -/
  | whole
  /-- Inside a character, of which these bytes were seen. -/
  | cut (held : Bytes)
  /-- At a byte that no well-formed text has there. -/
  | illFormed
  deriving DecidableEq, Repr

/-- How a scan ends in a state. -/
def State.ending : State → Ending
  | .start => .whole
  | .inside held _ _ _ => .cut held

/-- The characters completed from state `q` on, and how it ended. -/
def scan : State → Bytes → Text × Ending
  | q, [] => ([], q.ending)
  | q, b :: bs =>
    match q.step b with
    | .into q' => scan q' bs
    | .char c => let r := scan .start bs; (c :: r.1, r.2)
    | .refuse => ([], .illFormed)

/-- The text that some bytes encode, if they are well formed. -/
def decode? (bs : Bytes) : Option Text :=
  match scan .start bs with
  | (t, .whole) => some t
  | _ => none

/-- What stands for bytes that are no character. -/
def replacement : Char := '\uFFFD'

/-- The text of any bytes from state `q` on: a character that cannot be finished
becomes one replacement character, and the byte that broke it is read afresh. -/
def lossyFrom : State → Bytes → Text
  | .start, [] => []
  | .inside _ _ _ _, [] => [replacement]
  | q, b :: bs =>
    match q.step b with
    | .into q' => lossyFrom q' bs
    | .char c => c :: lossyFrom .start bs
    | .refuse =>
      match q with
      | .start => replacement :: lossyFrom .start bs
      | .inside _ _ _ _ =>
        match opens b with
        | .into q' => replacement :: lossyFrom q' bs
        | .char c => replacement :: c :: lossyFrom .start bs
        | .refuse => replacement :: replacement :: lossyFrom .start bs

/-- The text of any bytes, with one replacement character for each maximal part
that is not well formed. -/
def lossy (bs : Bytes) : Text :=
  lossyFrom .start bs

/-- A byte inside a character passes the scan on to the state it leads to. -/
theorem scan_cons_of_into {q : State} {b : UInt8} {q' : State} (bs : Bytes)
    (h : q.step b = .into q') : scan q (b :: bs) = scan q' bs := by
  simp [scan, h]

/-- A completed character heads the scan. -/
theorem scan_cons_of_char {q : State} {b : UInt8} {c : Char} (bs : Bytes)
    (h : q.step b = .char c) :
    scan q (b :: bs) = (c :: (scan .start bs).1, (scan .start bs).2) := by
  simp [scan, h]

end Offspring.Utf8
