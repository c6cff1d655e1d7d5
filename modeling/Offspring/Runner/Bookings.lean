import Offspring.Runner.Workspace
/-!
# Runners asked for at the same time

Whoever asks for a runner first takes a number and later makes the directory.  In between
others may take numbers, make directories and change the files, so directories are made in
any order, and some never.  A runner is booked when it has its number, and bookings stay in
the order in which the numbers were taken.
-/

namespace Offspring

/-- A runner that has its number, and what asking for it gave, once that is known. -/
structure Booking where
  runner : Runner
  answer? : Option (Except Failure Runner)

/-- The runners of a process, and all those that were booked. -/
structure Bookings where
  runners : Runners
  booked : List Booking

/-- The runner that asking gave, if it gave one. -/
def Booking.obtained? (k : Booking) : Option Runner :=
  match k.answer? with
  | some (.ok r) => some r
  | _ => none

/-- What happens to bookings. -/
inductive BookingStep where
  /-- A test asks for a runner and takes a number. -/
  | book (pkg module test : Text)
  /-- The directory of the booking at a place is made. -/
  | prepare (place : Nat)
  /-- Something else changes the files. -/
  | change (files : Files)

/-- The directory that a test which asks wants. -/
def BookingStep.wants? (s : Site) : BookingStep → Option Text
  | .book pkg module test => some (s.workspace pkg module test)
  | _ => none

namespace Bookings

/-- The directories that are asked for, one after the other. -/
def asked (s : Site) (steps : List BookingStep) : List Text :=
  steps.filterMap (·.wants? s)

/-- No booking yet. -/
def start (files : Files) : Bookings := ⟨.start files, []⟩

/-- Books a runner. -/
def book (b : Bookings) (s : Site) (pkg module test : Text) : Bookings :=
  let (id, runners) := b.runners.take
  ⟨runners, b.booked ++ [⟨⟨id, s.workspace pkg module test⟩, none⟩]⟩

/-- Makes the directory of a booking; a directory is made once. -/
def prepare (b : Bookings) (place : Nat) : Bookings :=
  match b.booked[place]? with
  | some ⟨runner, none⟩ =>
    let (answer, runners) := b.runners.prepare runner
    ⟨runners, b.booked.set place ⟨runner, some answer⟩⟩
  | _ => b

/-- One thing that happens. -/
def step (b : Bookings) (s : Site) : BookingStep → Bookings
  | .book pkg module test => b.book s pkg module test
  | .prepare place => b.prepare place
  | .change files => { b with runners := { b.runners with files } }

/-- A row of things that happen. -/
def run (b : Bookings) (s : Site) (steps : List BookingStep) : Bookings :=
  steps.foldl (fun b x => b.step s x) b

/-- The runner obtained by the booking at a place. -/
def obtained? (b : Bookings) (place : Nat) : Option Runner :=
  b.booked[place]?.bind Booking.obtained?

end Bookings

end Offspring
