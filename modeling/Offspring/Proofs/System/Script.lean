import Offspring.System.Script
/-!
# Calls and the replies they get

A script serves a row of calls one after the other (`Script.exchanges`), and `Script.after`
is what it leaves.  Read by the kind of call, the replies are the entries of one list from
its head on, each of them once, and then only what stands for the end of that list; what is
left are the later entries (`exchanges_supply`).
-/

namespace Offspring

/-- What a script has for one call. -/
inductive Served where
  | fork (reply : ForkReply)
  | wait (reply : WaitReply)
  /-- The seconds after which a signal comes into the sleep, if one does. -/
  | sleep (signal? : Option Nat)
  deriving DecidableEq, Repr

/-- A call with the reply it got. -/
structure Exchange where
  request : Request
  served : Served
  deriving DecidableEq, Repr

namespace Exchange

/-- The reply to a fork. -/
def fork? (x : Exchange) : Option ForkReply :=
  match x.served with
  | .fork reply => some reply
  | _ => none

/-- The reply to a wait. -/
def wait? (x : Exchange) : Option WaitReply :=
  match x.served with
  | .wait reply => some reply
  | _ => none

/-- The signal into a sleep. -/
def sleep? (x : Exchange) : Option (Option Nat) :=
  match x.served with
  | .sleep signal? => some signal?
  | _ => none

end Exchange

namespace Script

/-- Serves one call. -/
def serve (s : Script) : Request → Served × Script
  | .fork => (.fork (s.forks.headD (.failed Errno.noSuchCall)), { s with forks := s.forks.tail })
  | .waitpid _ => (.wait (s.waits.headD (.failed Errno.noChild)), { s with waits := s.waits.tail })
  | .sleep _ _ => (.sleep s.sleeps.head?, { s with sleeps := s.sleeps.tail })

/-- A row of calls, each with the reply it gets. -/
def exchanges (s : Script) : List Request → List Exchange
  | [] => []
  | r :: rs => ⟨r, (s.serve r).1⟩ :: (s.serve r).2.exchanges rs

/-- What a row of calls leaves of a script. -/
def after (s : Script) : List Request → Script
  | [] => s
  | r :: rs => (s.serve r).2.after rs

theorem exchanges_append (s : Script) (rs rs' : List Request) :
    s.exchanges (rs ++ rs') = s.exchanges rs ++ (s.after rs).exchanges rs' := by
  induction rs generalizing s with
  | nil => rfl
  | cons r rs ih => simp [exchanges, after, ih]

theorem after_append (s : Script) (rs rs' : List Request) :
    s.after (rs ++ rs') = (s.after rs).after rs' := by
  induction rs generalizing s with
  | nil => rfl
  | cons r rs ih => simp [after, ih]

theorem request_exchanges (s : Script) (rs : List Request) :
    (s.exchanges rs).map Exchange.request = rs := by
  induction rs generalizing s with
  | nil => rfl
  | cons r rs ih => simp [exchanges, ih]

end Script

section Supply

variable {α : Type}

/-- The first `n` entries of a list, with `last` for those that it does not have. -/
def supply (l : List α) (last : α) (n : Nat) : List α :=
  l.take n ++ List.replicate (n - l.length) last

/-- The next entry is the head of the list, and those after it come from the tail. -/
theorem supply_next {l used : List α} {last : α} (h : used = supply l.tail last used.length) :
    l.headD last :: used = supply l last (used.length + 1) ∧
      l.tail.drop used.length = l.drop (used.length + 1) := by
  cases l with
  | nil => exact ⟨by simpa [supply, List.replicate_succ] using h, by simp⟩
  | cons a l => exact ⟨by simpa [supply] using h, rfl⟩

end Supply

/-- **Every entry is used once and in order.**  The replies of each kind are the entries of
its list and then its default, and the entries that were not used are left. -/
theorem Script.exchanges_supply (s : Script) (rs : List Request) :
    let forks := (s.exchanges rs).filterMap Exchange.fork?
    let waits := (s.exchanges rs).filterMap Exchange.wait?
    let sleeps := (s.exchanges rs).filterMap Exchange.sleep?
    forks = supply s.forks (.failed Errno.noSuchCall) forks.length ∧
    waits = supply s.waits (.failed Errno.noChild) waits.length ∧
    sleeps = supply (s.sleeps.map some) none sleeps.length ∧
    s.after rs = ⟨s.forks.drop forks.length, s.waits.drop waits.length,
      s.sleeps.drop sleeps.length⟩ := by
  induction rs generalizing s with
  | nil => simp [supply, exchanges, after]
  | cons r rs ih =>
      obtain ⟨hforks, hwaits, hsleeps, hafter⟩ := ih (s.serve r).2
      cases r with
      | fork =>
          obtain ⟨hsupply, hdrop⟩ := supply_next hforks
          exact ⟨hsupply, hwaits, hsleeps, hafter.trans (congrArg (Script.mk · _ _) hdrop)⟩
      | waitpid pid =>
          obtain ⟨hsupply, hdrop⟩ := supply_next hwaits
          exact ⟨hforks, hsupply, hsleeps, hafter.trans (congrArg (Script.mk _ · _) hdrop)⟩
      | sleep secs nanos =>
          have hhead : (s.sleeps.map some).headD none = s.sleeps.head? := by
            cases s.sleeps <;> rfl
          rw [show (s.serve (.sleep secs nanos)).2.sleeps = s.sleeps.tail from rfl,
            List.map_tail] at hsleeps
          obtain ⟨hsupply, _⟩ := supply_next hsleeps
          rw [hhead] at hsupply
          exact ⟨hforks, hwaits, hsupply, hafter.trans (congrArg (Script.mk _ _) List.drop_tail)⟩

end Offspring
