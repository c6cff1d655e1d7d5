import Offspring.Proofs.ForkProgram.Run
import Offspring.Proofs.Process.Handles
/-!
# Children that a signal has killed

A report that a signal has killed the child ends the wait for it, whatever idle replies came
before (`waitOn_killed`).  Of the signals that a system sends, 1 to 64, only the first 31 are
known here: the status of a child that one of them has killed is 128 more than the signal.
A higher one makes the wait fail, although the child has then been reaped, so its end is not
reported (`killed_law`, `unreported_signal`).
-/

namespace Offspring

/-- What a wait for `target` is replied when signal `signal` has killed it. -/
def killReply (target : Pid) (signal : Nat) (core : Bool) : WaitReply :=
  .returned target (signal + if core then 128 else 0)

variable {target : Pid} {idle later : List WaitReply} {signal : Nat}

/-- A wait that comes to the report of a kill is over with it. -/
theorem waitOn_killed (htarget : target ≠ 0) (hidle : ∀ r ∈ idle, r.isIdle = true)
    (hpos : 1 ≤ signal) (hlow : signal < 127) (core : Bool) :
    waitOn target (idle ++ killReply target signal core :: later) =
      (if signal ≤ 31 then .status ⟨128 + signal⟩ else .error .invalidInput,
        idle.length + 1, later) :=
  waitOn_append_idle hidle (WaitReply.judge_killed htarget hpos hlow core) later

namespace ForkProgram

/-- What the parent makes of its run is what it makes of its wait. -/
theorem run_waited {argv : List Bytes} {operand : Bytes} {script : Script} {pid : Pid}
    (hone : argv.tail = [operand]) (hfork : script.nextFork.1 = .returned pid) (hpid : pid ≠ 0) :
    ((run argv script).finish, (run argv script).stderr) =
      conclude (programName argv) pid (waitOn pid script.waits).1 := by
  rw [run_operand script hone, fromFork_returned _ _ _ hfork, if_neg hpid,
    ← (nextFork_rest script).2]
  rfl

/-- **What is made of a child that a signal has killed.**  Whatever idle replies come before the
report, the wait takes one call for each of them and one for the report, and the later replies
are left.  If the signal is one of the first 31, with or without a core dump, the child counts
128 more than the signal, for a wait for its pid and for a wait by its handle, and the program
exits with one and tells of that status.  If it is a higher one, both waits fail with an invalid
input, and the program exits with one and tells of a wait that failed. -/
theorem killed_law (htarget : target ≠ 0) (hidle : ∀ r ∈ idle, r.isIdle = true)
    (hpos : 1 ≤ signal) (hlow : signal ≤ 64) (core : Bool) (later : List WaitReply) :
    let replies := idle ++ killReply target signal core :: later
    let ended : WaitEnd := if signal ≤ 31 then .status ⟨128 + signal⟩ else .error .invalidInput
    (∀ s : System, s.script.waits = replies →
      let did := s.waitPid target
      did.result = ended ∧ did.after.script.waits = later ∧
      did.calls = List.replicate (idle.length + 1) ⟨.waitpid target, s.out.bytesWritten⟩) ∧
    (∀ (p : Scripted) (k : Nat), p.system.script.waits = replies →
      p.handles[k]? = some (.parent target) → (p.step (.wait k)).1 = .waited ended) ∧
    ∀ (argv : List Bytes) (operand : Bytes) (script : Script), argv.tail = [operand] →
      script.nextFork.1 = .returned target → script.waits = replies →
      let r := run argv script
      r.finish = .exited 1 ∧
      r.stderr = programName argv ++
        (if signal ≤ 31 then ": child process ".toList ++ Decimal.ofInt target ++
          " exited with status ".toList ++ Decimal.ofInt (128 + signal)
        else ": wait child process failed: invalid argument".toList) ++ ['\n'] := by
  intro replies ended
  have hwait : waitOn target replies = (ended, idle.length + 1, later) :=
    waitOn_killed htarget hidle hpos (by omega) core
  have hresult : ∀ s : System, s.script.waits = replies → (s.waitPid target).result = ended := by
    intro s hs
    simp only [System.waitPid, hs, hwait]
  refine ⟨fun s hs => ⟨hresult s hs, ?_, ?_⟩, fun p k hp hk => ?_, ?_⟩
  · simp only [System.waitPid, hs, hwait]
  · simp only [System.waitPid, hs, hwait]
    rfl
  · rw [Scripted.step_wait_parent hk]
    exact congrArg Answer.waited (hresult p.system hp)
  · intro argv operand script hone hfork hscript r
    have hrun : (r.finish, r.stderr) = conclude (programName argv) target ended := by
      rw [run_waited hone hfork htarget, hscript, hwait]
    obtain ⟨_, hbad, herror, _⟩ := conclude_cases (programName argv) target ended
    by_cases hknown : signal ≤ 31
    · have hstatus : ended = .status ⟨128 + signal⟩ := if_pos hknown
      rw [hbad (128 + signal) (by omega) hstatus] at hrun
      rw [if_pos hknown]
      obtain ⟨hfinish, hstderr⟩ := Prod.mk.inj hrun
      refine ⟨hfinish, hstderr.trans ?_⟩
      simp only [List.append_assoc]
    · have hfailed : ended = .error .invalidInput := if_neg hknown
      rw [herror .invalidInput hfailed] at hrun
      have hmessage : ": wait child process failed: invalid argument".toList =
          ": wait child process failed: ".toList ++ OsError.invalidInput.message := by
        decide +kernel
      rw [if_neg hknown, hmessage]
      obtain ⟨hfinish, hstderr⟩ := Prod.mk.inj hrun
      refine ⟨hfinish, hstderr.trans ?_⟩
      simp only [List.append_assoc]

/-- A child that dumped its core, after an interruption, a reply on no process, and reports that
another process was stopped and the child resumed. -/
theorem killed_law_core_dump :
    let idle : List WaitReply :=
      [.failed 4, .returned 0 0, .returned 9 0x137F, .returned 7 0xFFFF]
    let script : Script := ⟨[.returned 7], idle ++ [killReply 7 11 true], []⟩
    let r := run [[0x66, 0x6F, 0x72, 0x6B], [0x30]] script
    (7 : Pid) ≠ 0 ∧ (∀ reply ∈ idle, reply.isIdle = true) ∧
    killReply 7 11 true = .returned 7 139 ∧
    ((System.start script).waitPid 7).result = .status ⟨139⟩ ∧
    r.finish = .exited 1 ∧ r.stderr = "fork: child process 7 exited with status 139\n".toList := by
  intro idle script r
  have hpid : (7 : Pid) ≠ 0 := by decide
  have hidle : ∀ reply ∈ idle, reply.isIdle = true := by decide
  have hpos : 1 ≤ 11 := by decide
  have hlow : 11 ≤ 64 := by decide
  obtain ⟨hwait, _, hprogram⟩ := killed_law hpid hidle hpos hlow true []
  obtain ⟨hfinish, hstderr⟩ := hprogram [[0x66, 0x6F, 0x72, 0x6B], [0x30]] [0x30] script rfl rfl rfl
  exact ⟨hpid, hidle, by decide, (hwait (.start script) rfl).1, hfinish,
    hstderr.trans (by decide +kernel)⟩

/-- A child that signal 34 has killed is reaped, and its end is not reported. -/
theorem unreported_signal :
    let script : Script := ⟨[.returned 7], [killReply 7 34 false], []⟩
    let did := (System.start script).waitPid 7
    let r := run [[0x66, 0x6F, 0x72, 0x6B], [0x30]] script
    did.after.script.waits = [] ∧ did.result = .error .invalidInput ∧
    did.result ≠ .status ⟨128 + 34⟩ ∧ r.finish = .exited 1 ∧
    r.stderr = "fork: wait child process failed: invalid argument\n".toList ∧
    r.stderr ≠ "fork: child process 7 exited with status 162\n".toList := by
  decide +kernel

end ForkProgram

end Offspring
