import Offspring.Proofs.ForkProgram.Run
/-!
# The time that a process sleeps

A sleep is a row of calls, each for what the one before it has left (`slept_sleepOn`), and all
of them together last as long as the sleep should (`Slept.asleep_eq`).  Both sides of the fork
program sleep once, after their fork, and all the calls of the sleep come before any wait and
before the end (`requests_run`).
-/

namespace Offspring.ForkProgram

variable {argv : List Bytes} {operand : Bytes} {script : Script} {pid : Pid}

/-- What a process asks of the system, in order: its fork, its sleep, and on the side of the
parent its waits. -/
theorem requests_run (hone : argv.tail = [operand])
    (hfork : script.nextFork.1 = .returned pid) :
    ∃ waits : Nat, (waits = 0 ↔ pid = 0) ∧
      (run argv script).calls.map (·.request) = .fork ::
        ((sleepOn (duration (Operand.leadingInt (Utf8.lossy operand))) script.sleeps).1.map
          (fun d => .sleep d.secs d.nanos) ++ List.replicate waits (.waitpid pid)) := by
  by_cases hpid : pid = 0
  · subst hpid
    refine ⟨0, by simp, ?_⟩
    rw [run_child hone hfork]
    simp [sleepCalls, sleepCall]
  · obtain ⟨idle, e, _, _, hrun⟩ := run_parent hone hfork hpid
    refine ⟨idle.length + 1, by simp [hpid], ?_⟩
    rw [hrun]
    simp [sleepCalls, sleepCall]

/-- The calls of the program's sleep last as long as its operand says. -/
theorem asleep_duration (t : Text) (signals : List Nat) :
    (asleep signals (sleepOn (duration (Operand.leadingInt t)) signals).1 : Int) =
      max (Operand.leadingInt t) 0 * 10 ^ 9 := by
  have hnanos : Duration.inNanos ⟨(Operand.leadingInt t).toNat, 0⟩ =
      (Operand.leadingInt t).toNat * 10 ^ 9 := Nat.add_zero _
  rw [(slept_duration t signals).asleep_eq, hnanos]
  omega

/-- **A sleep loses no time and adds none.**  A sleep of no time makes no call.  Any other first
asks for all of its time.  A call that a signal interrupts after some whole seconds is followed
by one for so many seconds less and the same nanoseconds, and one that no signal interrupts is the
last, so there is at most one call more than there are signals.  No call asks for no time.  The
seconds slept before the last call and what the last one asks for add up to the time of the sleep,
and so does what all the calls last.  One signal is used up by each call while there are signals.

Hence either process of the fork program has slept for the seconds of its operand, and for none if
they are negative, before its first wait and before it ends. -/
theorem sleeping_law :
    (∀ (s : System) (d : Duration), d.secs < 2 ^ 63 →
      let signals := s.script.sleeps
      let did := s.sleep d
      ∃ requests : List Duration,
        did.calls = requests.map (fun r => s.call (.sleep r.secs r.nanos)) ∧
        did.after =
          { s with script := { s.script with sleeps := signals.drop requests.length } } ∧
        (d = ⟨0, 0⟩ → requests = []) ∧
        (d ≠ ⟨0, 0⟩ → requests.head? = some d ∧
          ∃ last, requests.getLast? = some last ∧
            (∀ n ∈ signals[requests.length - 1]?, last.secs ≤ n) ∧
            (signals.take (requests.length - 1)).sum + last.secs = d.secs ∧
            last.nanos = d.nanos) ∧
        (∀ i r n, requests[i]? = some r → signals[i]? = some n → n < r.secs →
          requests[i + 1]? = some ⟨r.secs - n, r.nanos⟩) ∧
        (∀ i r, requests[i]? = some r → (∀ n ∈ signals[i]?, r.secs ≤ n) →
          requests.length = i + 1) ∧
        (∀ r ∈ requests, r ≠ ⟨0, 0⟩) ∧
        requests.length ≤ signals.length + 1 ∧
        asleep signals requests = d.secs * 10 ^ 9 + d.nanos) ∧
    ∀ (argv : List Bytes) (operand : Bytes) (script : Script) (pid : Pid),
      argv.tail = [operand] → script.nextFork.1 = .returned pid →
      ∃ (requests : List Duration) (waits : Nat), (waits = 0 ↔ pid = 0) ∧
        (run argv script).calls.map (·.request) = .fork ::
          (requests.map (fun d => .sleep d.secs d.nanos) ++ List.replicate waits (.waitpid pid)) ∧
        (asleep script.sleeps requests : Int) =
          max (Operand.leadingInt (Utf8.lossy operand)) 0 * 10 ^ 9 := by
  refine ⟨?_, ?_⟩
  · intro s d hshort signals did
    have hle : d.secs ≤ Duration.longest := by
      unfold Duration.longest
      omega
    have hslept : Slept d signals (sleepOn d signals).1 := slept_sleepOn hle signals
    refine ⟨(sleepOn d signals).1, rfl, ?_, ?_, ?_, ?_, ?_, ?_, hslept.length_le,
      hslept.asleep_eq⟩
    · rw [← sleepOn_rest hle signals]
      rfl
    · intro hzero
      rw [sleepOn_of_isZero (Duration.isZero_iff.mpr hzero)]
    · intro hsome
      have hsome : d.isZero = false := by
        rw [← Bool.not_eq_true, Duration.isZero_iff]
        exact hsome
      exact ⟨hslept.head hsome, hslept.last hsome⟩
    · intro i r n hr hn hlt
      exact hslept.interrupted hr hn hlt
    · intro i r hr hend
      exact hslept.ended hr hend
    · intro r hr hzero
      have hsome := hslept.isZero_of_mem hr
      rw [Duration.isZero_iff.mpr hzero] at hsome
      cases hsome
  · intro argv operand script pid hone hfork
    obtain ⟨waits, hside, hcalls⟩ := requests_run hone hfork
    exact ⟨_, waits, hside, hcalls, asleep_duration _ _⟩

/-- A sleep of three and a half seconds with a signal at once, one in time and one too late, and
a parent that sleeps four seconds with two signals. -/
theorem sleeping_law_three_signals :
    let s : System := .start ⟨[], [], [0, 2, 1, 5]⟩
    let d : Duration := ⟨3, 500000000⟩
    let script : Script := ⟨[.returned 7], [], [0, 3]⟩
    d.secs < 2 ^ 63 ∧
    (s.sleep d).calls.map (·.request) =
      [.sleep 3 500000000, .sleep 3 500000000, .sleep 1 500000000] ∧
    (∃ requests : List Duration,
      (s.sleep d).calls = requests.map (fun r => s.call (.sleep r.secs r.nanos)) ∧
      (s.sleep d).after.script.sleeps = [0, 2, 1, 5].drop requests.length ∧
      asleep [0, 2, 1, 5] requests = 3500000000) ∧
    ∃ (requests : List Duration) (waits : Nat), waits ≠ 0 ∧
      (run [[0x66], [0x34]] script).calls.map (·.request) = .fork ::
        (requests.map (fun d => .sleep d.secs d.nanos) ++ List.replicate waits (.waitpid 7)) ∧
      (asleep [0, 3] requests : Int) = 4000000000 := by
  intro s d script
  obtain ⟨hsleep, hrun⟩ := sleeping_law
  have hshort : d.secs < 2 ^ 63 := by decide
  refine ⟨hshort, by decide, ?_, ?_⟩
  · obtain ⟨requests, hcalls, hafter, _, _, _, _, _, _, htotal⟩ := hsleep s d hshort
    exact ⟨requests, hcalls, by rw [hafter]; rfl, htotal.trans (by decide)⟩
  · obtain ⟨requests, waits, hside, hcalls, htotal⟩ := hrun [[0x66], [0x34]] [0x34] script 7 rfl rfl
    have hnumber : Operand.leadingInt (Utf8.lossy [0x34]) = 4 := by decide
    have hwaits : waits ≠ 0 := fun hnone => absurd (hside.mp hnone) (by decide)
    rw [hnumber] at htotal
    exact ⟨requests, waits, hwaits, hcalls, htotal.trans (by decide)⟩

end Offspring.ForkProgram
