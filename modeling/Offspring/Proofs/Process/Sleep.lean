import Mathlib.Algebra.Ring.Int.Defs
import Mathlib.Algebra.Ring.Nat
import Offspring.Process.Sleep
/-!
# Interrupted sleeps

`Slept` says which requests make up a sleep when signals come: each interrupted call is
followed by one for the time that is left, until a call runs to its end.  Every sleep
that one call can be asked for goes like that (`slept_sleepOn`).

From there it follows by induction on the calls what a sleep adds up to.  The signals before
the last call have taken off it what it lacks of the whole time (`Slept.last`), so all calls
together last exactly that long (`Slept.asleep_eq`), also when signals come at once and leave
as much as there was.
-/

namespace Offspring

/-- The requests of a sleep, given after how many whole seconds a signal comes into each
call. -/
inductive Slept : Duration → List Nat → List Duration → Prop
  /-- No time takes no call. -/
  | none {d : Duration} {ns : List Nat} (hzero : d.isZero = true) : Slept d ns []
  /-- No signal comes before the call has run its time. -/
  | whole {d : Duration} {ns : List Nat} (hzero : d.isZero = false)
      (hend : ∀ n ∈ ns.head?, d.secs ≤ n) : Slept d ns [d]
  /-- A signal comes, and what is left is asked for again. -/
  | again {d : Duration} {n : Nat} {ns : List Nat} {requests : List Duration}
      (hn : n < d.secs) (hrest : Slept (d.after n) ns requests) :
      Slept d (n :: ns) (d :: requests)

namespace Duration

variable {d : Duration}

theorem isZero_iff : d.isZero = true ↔ d = ⟨0, 0⟩ := by
  obtain ⟨secs, nanos⟩ := d
  simp [isZero]

/-- Something is left after a signal. -/
theorem isZero_after {n : Nat} (h : n < d.secs) : (d.after n).isZero = false := by
  have hne : d.secs - n ≠ 0 := by omega
  simp [isZero, after, hne]

theorem asked_of_le (h : d.secs ≤ longest) : d.asked = d := by
  simp [asked, h]

theorem isZero_rest (h : d.secs ≤ longest) : d.rest.isZero = true := by
  simp [rest, isZero, h]

theorem requests_of_le (h : d.secs ≤ longest) :
    d.requests = if d.isZero then [] else [d] := by
  rw [requests, if_pos h]

end Duration

/-- A sleep with no time left takes no call, and leaves the signals to come. -/
theorem sleepOn_of_isZero {d : Duration} (h : d.isZero = true) (ns : List Nat) :
    sleepOn d ns = ([], ns) := by
  cases ns with
  | nil =>
      have hle : d.secs ≤ Duration.longest := by
        have hsecs : d.secs = 0 := by
          simp only [Duration.isZero, Bool.and_eq_true, beq_iff_eq] at h
          exact h.1
        omega
      rw [sleepOn, Duration.requests_of_le hle, if_pos h]
  | cons n ns => rw [sleepOn, if_pos h]

/-- A sleep that a signal interrupts goes on with what is left of it. -/
theorem sleepOn_of_lt {d : Duration} {n : Nat} (h : d.secs ≤ Duration.longest)
    (hn : n < d.secs) (ns : List Nat) :
    sleepOn d (n :: ns) = (d :: (sleepOn (d.after n) ns).1, (sleepOn (d.after n) ns).2) := by
  have hzero : d.isZero = false := by
    have hne : d.secs ≠ 0 := by omega
    simp [Duration.isZero, hne]
  rw [sleepOn, if_neg (by simp [hzero])]
  simp only [Duration.asked_of_le h, if_pos hn]

/-- A signal that comes when the sleep is over is used up by it. -/
theorem sleepOn_of_late {d : Duration} {n : Nat} (h : d.secs ≤ Duration.longest)
    (hsome : d.isZero = false) (hn : d.secs ≤ n) (ns : List Nat) :
    sleepOn d (n :: ns) = ([d], ns) := by
  rw [sleepOn, if_neg (by simp [hsome])]
  simp only [Duration.asked_of_le h, if_neg (Nat.not_lt.mpr hn),
    sleepOn_of_isZero (Duration.isZero_rest h)]

/-- **A sleep is taken up again until its time has passed.** -/
theorem slept_sleepOn {d : Duration} (h : d.secs ≤ Duration.longest) (ns : List Nat) :
    Slept d ns (sleepOn d ns).1 := by
  induction ns generalizing d with
  | nil =>
      rw [sleepOn, Duration.requests_of_le h]
      split
      · next hzero => exact .none hzero
      · next hzero => exact .whole (by simpa using hzero) nofun
  | cons n ns ih =>
      by_cases hzero : d.isZero = true
      · rw [sleepOn_of_isZero hzero]
        exact .none hzero
      have hsome : d.isZero = false := Bool.eq_false_iff.mpr hzero
      by_cases hn : n < d.secs
      · rw [sleepOn_of_lt h hn]
        exact .again hn (ih (Nat.le_trans (Nat.sub_le d.secs n) h))
      · rw [sleepOn_of_late h hsome (Nat.not_lt.mp hn)]
        exact .whole hsome (by simpa using hn)

/-- A sleep uses up one signal for each call, as long as there are signals. -/
theorem sleepOn_rest {d : Duration} (h : d.secs ≤ Duration.longest) (ns : List Nat) :
    (sleepOn d ns).2 = ns.drop (sleepOn d ns).1.length := by
  induction ns generalizing d with
  | nil => simp [sleepOn]
  | cons n ns ih =>
      by_cases hzero : d.isZero = true
      · rw [sleepOn_of_isZero hzero]
        rfl
      have hsome : d.isZero = false := Bool.eq_false_iff.mpr hzero
      by_cases hn : n < d.secs
      · rw [sleepOn_of_lt h hn, List.length_cons, List.drop_succ_cons]
        exact ih (Nat.le_trans (Nat.sub_le d.secs n) h)
      · rw [sleepOn_of_late h hsome (Nat.not_lt.mp hn)]
        rfl

/-- A duration in nanoseconds. -/
def Duration.inNanos (d : Duration) : Nat :=
  d.secs * 10 ^ 9 + d.nanos

/-- The nanoseconds that some calls sleep, given after how many whole seconds a signal comes
into each: up to the signal, or all of the time of a call that is over before it. -/
def asleep : List Nat → List Duration → Nat
  | _, [] => 0
  | [], d :: ds => d.inNanos + asleep [] ds
  | n :: ns, d :: ds => (if n < d.secs then n * 10 ^ 9 else d.inNanos) + asleep ns ds

@[simp] theorem asleep_nil (ns : List Nat) : asleep ns [] = 0 := by
  cases ns <;> rfl

namespace Slept

variable {d : Duration} {ns : List Nat} {requests : List Duration}

/-- The first call asks for all of the time. -/
theorem head (h : Slept d ns requests) (hsome : d.isZero = false) :
    requests.head? = some d := by
  cases h with
  | none hzero =>
      rw [hsome] at hzero
      cases hzero
  | whole => rfl
  | again => rfl

/-- A call that a signal interrupts is followed by one for what is left. -/
theorem interrupted (h : Slept d ns requests) {i n : Nat} {r : Duration}
    (hr : requests[i]? = some r) (hn : ns[i]? = some n) (hlt : n < r.secs) :
    requests[i + 1]? = some (r.after n) := by
  induction h generalizing i with
  | none hzero => cases hr
  | @whole d ns hsome hend =>
      cases i with
      | zero =>
          obtain rfl : d = r := Option.some.inj hr
          have hle : d.secs ≤ n := hend n (List.head?_eq_getElem?.trans hn)
          omega
      | succ i => cases hr
  | @again d m ns requests hm hrest ih =>
      cases i with
      | zero =>
          obtain rfl : d = r := Option.some.inj hr
          obtain rfl : m = n := Option.some.inj hn
          have hnext := hrest.head (Duration.isZero_after hm)
          rw [List.head?_eq_getElem?] at hnext
          exact hnext
      | succ i => exact ih hr hn

/-- A call that runs to its end is the last. -/
theorem ended (h : Slept d ns requests) {i : Nat} {r : Duration} (hr : requests[i]? = some r)
    (hend : ∀ n ∈ ns[i]?, r.secs ≤ n) : requests.length = i + 1 := by
  induction h generalizing i with
  | none hzero => cases hr
  | whole hsome hlast =>
      cases i with
      | zero => rfl
      | succ i => cases hr
  | @again d m ns requests hm hrest ih =>
      cases i with
      | zero =>
          obtain rfl : d = r := Option.some.inj hr
          have hle : d.secs ≤ m := hend m rfl
          omega
      | succ i =>
          rw [List.length_cons, ih hr hend]

/-- No call asks for no time. -/
theorem isZero_of_mem (h : Slept d ns requests) {r : Duration} (hr : r ∈ requests) :
    r.isZero = false := by
  induction h with
  | none hzero => cases hr
  | whole hsome hend =>
      rw [List.mem_singleton.mp hr]
      exact hsome
  | again hn hrest ih =>
      rcases List.mem_cons.mp hr with rfl | hr
      · have hne : r.secs ≠ 0 := by omega
        simp [Duration.isZero, hne]
      · exact ih hr

/-- Only a signal makes one more call. -/
theorem length_le (h : Slept d ns requests) : requests.length ≤ ns.length + 1 := by
  induction h with
  | none hzero => exact Nat.zero_le _
  | whole hsome hend => simp
  | again hn hrest ih => simpa using ih

/-- The last call asks for what the signals before it have left, and runs to its end. -/
theorem last (h : Slept d ns requests) (hsome : d.isZero = false) :
    ∃ r, requests.getLast? = some r ∧ (∀ n ∈ ns[requests.length - 1]?, r.secs ≤ n) ∧
      (ns.take (requests.length - 1)).sum + r.secs = d.secs ∧ r.nanos = d.nanos := by
  induction h with
  | none hzero =>
      rw [hsome] at hzero
      cases hzero
  | @whole d ns _ hend =>
      have hfirst : ∀ n ∈ ns[0]?, d.secs ≤ n := fun n hn =>
        hend n (List.head?_eq_getElem?.trans hn)
      exact ⟨d, rfl, hfirst, by simp, rfl⟩
  | @again d n ns requests hn hrest ih =>
      obtain ⟨r, hr, hend, hsum, hnanos⟩ := ih (Duration.isZero_after hn)
      obtain ⟨first, later, rfl⟩ : ∃ first later, requests = first :: later := by
        cases requests with
        | nil => cases hr
        | cons first later => exact ⟨first, later, rfl⟩
      have hleft : (d.after n).secs = d.secs - n := rfl
      refine ⟨r, hr, hend, ?_, hnanos⟩
      simp only [List.length_cons, Nat.add_sub_cancel, List.take_succ_cons, List.sum_cons]
        at hsum ⊢
      omega

/-- **The calls of a sleep last as long as the sleep.** -/
theorem asleep_eq (h : Slept d ns requests) : asleep ns requests = d.inNanos := by
  induction h with
  | none hzero =>
      rw [Duration.isZero_iff.mp hzero, asleep_nil]
      rfl
  | @whole d ns _ hend =>
      cases ns with
      | nil => rw [asleep, asleep_nil, Nat.add_zero]
      | cons n ns =>
          have hn : ¬ n < d.secs := Nat.not_lt.mpr (hend n rfl)
          rw [asleep, if_neg hn, asleep_nil, Nat.add_zero]
  | @again d n ns requests hn hrest ih =>
      have hleft : (d.after n).inNanos = (d.secs - n) * 10 ^ 9 + d.nanos := rfl
      have hwhole : d.inNanos = d.secs * 10 ^ 9 + d.nanos := rfl
      rw [asleep, if_pos hn, ih, hleft, hwhole]
      omega

end Slept

end Offspring
