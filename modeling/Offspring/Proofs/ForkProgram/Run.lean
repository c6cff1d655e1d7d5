import Offspring.ForkProgram.Run
import Offspring.Proofs.Process.Sleep
import Offspring.Proofs.Process.Wait
import Offspring.Proofs.System.Stdout
import Offspring.Proofs.Text.Operand
/-!
# What a run of the fork program does

The calls of a run come in a fixed order: the fork, with nothing written; then, with the
line of the process written and nothing else, the requests of its sleep; and on the side
of the parent the waits.  Each part is settled for any system (`fork_start`,
`sleep_calls`, `waitPid_cases`), and `run_law` puts them together for every argument
vector and every script.
-/

namespace Offspring

/-- A fork at the start of a process: nothing has been written, and the sleeps and waits
that the system has ready stay so. -/
theorem fork_start (script : Script) :
    (System.start script).fork =
      ⟨script.nextFork.1.handle, [⟨.fork, 0⟩], ⟨script.nextFork.2, .empty⟩⟩ := rfl

theorem nextFork_rest (script : Script) :
    script.nextFork.2.sleeps = script.sleeps ∧ script.nextFork.2.waits = script.waits := by
  obtain ⟨forks, waits, sleeps⟩ := script
  cases forks <;> exact ⟨rfl, rfl⟩

/-- A process that ends writes all that it has printed. -/
theorem written_flush_print (s : System) (t : Text) :
    (s.print t).flush.out.written = s.out.printed ++ t :=
  Stdout.printed_print s.out t

/-- The call of one request of a sleep, with so many bytes written. -/
def sleepCall (written : Nat) (d : Duration) : Call :=
  ⟨.sleep d.secs d.nanos, written⟩

/-- The calls of a sleep are made with the same output written. -/
theorem sleep_calls (s : System) (d : Duration) :
    (s.sleep d).calls = (sleepOn d s.script.sleeps).1.map (sleepCall s.out.bytesWritten) ∧
      (s.sleep d).after.out = s.out ∧
      (s.sleep d).after.script.waits = s.script.waits :=
  ⟨rfl, rfl, rfl⟩

/-- A wait takes one call more than there are idle replies, all for the same process. -/
theorem waitPid_cases (s : System) (target : Pid) :
    ∃ idle e, (∀ r ∈ idle, r.isIdle = true) ∧
      (s.waitPid target).result = e ∧
      (s.waitPid target).calls =
        List.replicate (idle.length + 1) ⟨.waitpid target, s.out.bytesWritten⟩ ∧
      (s.waitPid target).after.out = s.out ∧
      ((s.script.waits = idle ∧ e = .error .noChildProcess) ∨
        ∃ r rest, s.script.waits = idle ++ r :: rest ∧ r.judge target = .ends e) := by
  obtain ⟨idle, e, hidle, hwait, hend⟩ := waitOn_cases target s.script.waits
  refine ⟨idle, e, hidle, ?_, ?_, rfl, hend⟩
  · simp [System.waitPid, hwait]
  · simp [System.waitPid, hwait, System.call]

namespace ForkProgram

/-- The line of a process without its newline. -/
def roleText (r : Role) (secs : Int) : Text :=
  r.label ++ ": sleeping ".toList ++ Decimal.ofInt secs ++ " seconds".toList

theorem roleLine_eq (r : Role) (secs : Int) : roleLine r secs = roleText r secs ++ ['\n'] := by
  simp [roleLine, roleText]

theorem newline_notMem_roleText (r : Role) (secs : Int) : '\n' ∉ roleText r secs := by
  have hlabel : '\n' ∉ r.label := by cases r <;> decide
  have hnumber := Decimal.newline_notMem_ofInt secs
  simp only [roleText, List.mem_append, not_or]
  exact ⟨⟨⟨hlabel, by decide⟩, hnumber⟩, by decide⟩

/-- It is one line, whatever the number. -/
theorem lines_roleLine (r : Role) (secs : Int) : (roleLine r secs).lines = [roleText r secs] := by
  have hlast : (roleText r secs).getLast? = some 's' := by
    rw [roleText, List.getLast?_append]
    rfl
  rw [roleLine_eq]
  exact Text.lines_of_ended (newline_notMem_roleText r secs) (by rw [hlast]; decide)

/-- A process has its whole line written when it begins to sleep. -/
theorem print_roleLine (r : Role) (secs : Int) (script : Script) :
    System.print ⟨script, .empty⟩ (roleLine r secs) = ⟨script, ⟨roleLine r secs, []⟩⟩ := by
  rw [System.print, roleLine_eq, Stdout.print_of_ended]
  rfl

/-- The requests of the program's sleep. -/
theorem slept_duration (t : Text) (ns : List Nat) :
    Slept ⟨(Operand.leadingInt t).toNat, 0⟩ ns
      (sleepOn (duration (Operand.leadingInt t)) ns).1 := by
  have hbounds := Operand.leadingInt_bounds t
  apply slept_sleepOn
  unfold Operand.largest at hbounds
  unfold Duration.longest
  dsimp only
  omega

variable (name : Text) (secs : Int) (script : Script)

/-- The calls of a process that sleeps, with its line written. -/
def sleepCalls (r : Role) : List Call :=
  (sleepOn (duration secs) script.sleeps).1.map (sleepCall (roleLine r secs).size)

/-- The side of the child. -/
theorem afterFork_child :
    afterFork name secs .child ⟨script, .empty⟩ =
      ⟨.exited 0, roleLine .child secs, [], sleepCalls secs script .child⟩ := by
  obtain ⟨hcalls, hout, _⟩ := sleep_calls ⟨script, ⟨roleLine .child secs, []⟩⟩ (duration secs)
  simp only [afterFork, Handle.role, print_roleLine, hcalls, System.flush, hout,
    Stdout.written_flush, Stdout.printed, List.append_nil]
  rfl

/-- The side of the parent: what is left of it after the sleep is its wait. -/
theorem afterFork_parent (child : Pid) :
    ∃ idle e, (∀ r ∈ idle, r.isIdle = true) ∧
      ((script.waits = idle ∧ e = .error .noChildProcess) ∨
        ∃ r rest, script.waits = idle ++ r :: rest ∧ r.judge child = .ends e) ∧
      afterFork name secs (.parent child) ⟨script, .empty⟩ =
        ⟨(conclude name child e).1, roleLine .main secs, (conclude name child e).2,
          sleepCalls secs script .main ++
            List.replicate (idle.length + 1) ⟨.waitpid child, (roleLine .main secs).size⟩⟩ := by
  obtain ⟨hcalls, hout, hwaits⟩ := sleep_calls ⟨script, ⟨roleLine .main secs, []⟩⟩ (duration secs)
  obtain ⟨idle, e, hidle, hresult, hwait, hafter, hend⟩ :=
    waitPid_cases (System.sleep ⟨script, ⟨roleLine .main secs, []⟩⟩ (duration secs)).after child
  rw [hwaits] at hend
  rw [hout] at hafter hwait
  refine ⟨idle, e, hidle, hend, ?_⟩
  simp only [afterFork, Handle.role, print_roleLine, hcalls, hresult, hwait, System.flush, hafter,
    Stdout.written_flush, Stdout.printed, List.append_nil]
  rfl

/-- How the parent ends after each end of its wait. -/
theorem conclude_cases (child : Pid) (e : WaitEnd) :
    (e = .status ⟨0⟩ → conclude name child e = (.exited 0, [])) ∧
    (∀ c, c ≠ 0 → e = .status ⟨c⟩ → conclude name child e =
      (.exited 1, name ++ ": child process ".toList ++ Decimal.ofInt child ++
        " exited with status ".toList ++ Decimal.ofInt c ++ ['\n'])) ∧
    (∀ err, e = .error err → conclude name child e =
      (.exited 1, name ++ ": wait child process failed: ".toList ++ err.message ++ ['\n'])) ∧
    (e = .otherProcess ∨ e = .noStatus → (conclude name child e).1 = .panicked) := by
  refine ⟨?_, ?_, ?_, ?_⟩
  · rintro rfl
    rfl
  · rintro c hc rfl
    simp [conclude, ExitStatus.success, hc, failure, childFailed, Diagnostic.line]
  · rintro err rfl
    simp [conclude, failure, waitFailed, Diagnostic.line, Diagnostic.because]
  · rintro (rfl | rfl) <;> rfl

/-- Without exactly one operand the program makes no call. -/
theorem run_usage {argv : List Bytes} (h : argv.tail.length ≠ 1) :
    run argv script = ⟨.exited 1, usage argv.tail.length, [], []⟩ := by
  have hlength : ((Arguments.ofVector argv).toList).length = argv.tail.length := by
    simp [Arguments.toList, Arguments.ofVector]
  unfold run
  split
  · next operand hone =>
    rw [hone] at hlength
    exact absurd hlength.symm h
  · simp only [hlength, written_flush_print]
    rfl

/-- With one operand it is all in what follows the fork. -/
theorem run_operand {argv : List Bytes} {operand : Bytes} (h : argv.tail = [operand]) :
    run argv script =
      fromFork (programName argv) (Operand.leadingInt (Utf8.lossy operand)) (.start script) := by
  have hone : (Arguments.ofVector argv).toList = [Utf8.lossy operand] := by
    simp [Arguments.toList, Arguments.ofVector, h]
  simp only [run, hone]

theorem fromFork_failed {errno : Int} (h : script.nextFork.1 = .failed errno) :
    fromFork name secs (.start script) =
      ⟨.exited 1, [], forkFailed name (.ofErrno errno), [⟨.fork, 0⟩]⟩ := by
  rw [fromFork, fork_start, h]
  rfl

theorem fromFork_returned {pid : Pid} (h : script.nextFork.1 = .returned pid) :
    fromFork name secs (.start script) =
      let rest := afterFork name secs (if pid = 0 then .child else .parent pid)
        ⟨script.nextFork.2, .empty⟩
      { rest with calls := ⟨.fork, 0⟩ :: rest.calls } := by
  rw [fromFork, fork_start, h]
  rfl

theorem usage_eq (given : Nat) :
    usage given = "fork: expected 1 parameter, given ".toList ++ Decimal.ofNat given ++ ['\n'] := by
  have hone : Decimal.ofNat operandCount = ['1'] := Decimal.ofNat_of_lt (by decide)
  unfold usage
  rw [hone]
  rfl

theorem forkFailed_eq (e : OsError) :
    forkFailed name e =
      name ++ ": fork child process failed: ".toList ++ e.message ++ ['\n'] := by
  simp [forkFailed, Diagnostic.line, Diagnostic.because]

variable {name secs script} {argv : List Bytes} {operand : Bytes}

/-- A run on the side of the child. -/
theorem run_child (h : argv.tail = [operand]) (hfork : script.nextFork.1 = .returned 0) :
    let secs := Operand.leadingInt (Utf8.lossy operand)
    run argv script =
      ⟨.exited 0, roleLine .child secs, [], ⟨.fork, 0⟩ :: sleepCalls secs script .child⟩ := by
  intro secs
  rw [run_operand script h, fromFork_returned _ _ _ hfork, if_pos rfl, afterFork_child,
    sleepCalls, sleepCalls, (nextFork_rest script).1]

/-- A run on the side of the parent. -/
theorem run_parent {pid : Pid} (h : argv.tail = [operand])
    (hfork : script.nextFork.1 = .returned pid) (hpid : pid ≠ 0) :
    let name := programName argv
    let secs := Operand.leadingInt (Utf8.lossy operand)
    ∃ idle e, (∀ reply ∈ idle, reply.isIdle = true) ∧
      ((script.waits = idle ∧ e = .error .noChildProcess) ∨
        ∃ reply rest, script.waits = idle ++ reply :: rest ∧ reply.judge pid = .ends e) ∧
      run argv script = ⟨(conclude name pid e).1, roleLine .main secs, (conclude name pid e).2,
        ⟨.fork, 0⟩ :: (sleepCalls secs script .main ++
          List.replicate (idle.length + 1) ⟨.waitpid pid, (roleLine .main secs).size⟩)⟩ := by
  intro name secs
  obtain ⟨hsleeps, hwaits⟩ := nextFork_rest script
  obtain ⟨idle, e, hidle, hend, hside⟩ := afterFork_parent name secs script.nextFork.2 pid
  rw [hwaits] at hend
  rw [sleepCalls, hsleeps] at hside
  refine ⟨idle, e, hidle, hend, ?_⟩
  rw [run_operand script h, fromFork_returned _ _ _ hfork, if_neg hpid, hside]
  rfl

/-- **The law of the fork program.**  Without exactly one operand it prints how many it was
given, whatever it was called, and makes no call.  With one it forks, with nothing
written.  If the fork fails, it says so and is done.  Otherwise its output is one line,
which names its side and the number; then it sleeps that long, or not at all for a
negative number, and only the parent waits, for its child alone, once for every idle
reply and once more.  All those calls are made with the whole line written.  The child
ends well and without a complaint, and the parent ends as the reply that decides its wait
tells. -/
theorem run_law (argv : List Bytes) (script : Script) :
    (argv.tail.length ≠ 1 →
      run argv script = ⟨.exited 1, "fork: expected 1 parameter, given ".toList ++
        Decimal.ofNat argv.tail.length ++ ['\n'], [], []⟩) ∧
    ∀ operand, argv.tail = [operand] →
      let name := programName argv
      let secs := Operand.leadingInt (Utf8.lossy operand)
      (∀ errno, script.nextFork.1 = .failed errno →
        run argv script = ⟨.exited 1, [], name ++ ": fork child process failed: ".toList ++
          (OsError.ofErrno errno).message ++ ['\n'], [⟨.fork, 0⟩]⟩) ∧
      ∀ pid, script.nextFork.1 = .returned pid →
        let text := (if pid = 0 then "Child Process" else "Main Process").toList ++
          ": sleeping ".toList ++ Decimal.ofInt secs ++ " seconds".toList
        let written := Text.size (text ++ ['\n'])
        let r := run argv script
        r.stdout = text ++ ['\n'] ∧ r.stdout.lines = [text] ∧
        ∃ requests, Slept ⟨secs.toNat, 0⟩ script.sleeps requests ∧
          let slept := ⟨.fork, 0⟩ :: requests.map (sleepCall written)
          (pid = 0 → r.calls = slept ∧ r.finish = .exited 0 ∧ r.stderr = []) ∧
          (pid ≠ 0 → ∃ idle e, (∀ reply ∈ idle, reply.isIdle = true) ∧
            ((script.waits = idle ∧ e = .error .noChildProcess) ∨
              ∃ reply rest, script.waits = idle ++ reply :: rest ∧ reply.judge pid = .ends e) ∧
            r.calls = slept ++ List.replicate (idle.length + 1) ⟨.waitpid pid, written⟩ ∧
            (e = .status ⟨0⟩ → r.finish = .exited 0 ∧ r.stderr = []) ∧
            (∀ c, c ≠ 0 → e = .status ⟨c⟩ → r.finish = .exited 1 ∧
              r.stderr = name ++ ": child process ".toList ++ Decimal.ofInt pid ++
                " exited with status ".toList ++ Decimal.ofInt c ++ ['\n']) ∧
            (∀ err, e = .error err → r.finish = .exited 1 ∧
              r.stderr = name ++ ": wait child process failed: ".toList ++ err.message ++
                ['\n']) ∧
            (e = .otherProcess ∨ e = .noStatus → r.finish = .panicked)) := by
  refine ⟨fun h => by rw [run_usage script h, usage_eq], fun operand hoperand => ?_⟩
  intro name secs
  refine ⟨fun errno hfork => ?_, fun pid hfork => ?_⟩
  · rw [run_operand script hoperand, fromFork_failed name secs script hfork, forkFailed_eq]
  intro text written r
  by_cases hpid : pid = 0
  · subst hpid
    have hrun : r = _ := run_child hoperand hfork
    have htext : text = roleText .child secs := rfl
    have hline : text ++ ['\n'] = roleLine .child secs := by rw [htext, roleLine_eq]
    refine ⟨by rw [hrun, hline], by rw [hrun, htext, lines_roleLine], _,
      slept_duration _ script.sleeps, fun _ => ?_, fun h => absurd rfl h⟩
    rw [hrun, show written = (roleLine .child secs).size by rw [← hline]]
    exact ⟨rfl, rfl, rfl⟩
  · obtain ⟨idle, e, hidle, hend, hrun⟩ := run_parent hoperand hfork hpid
    change r = _ at hrun
    have htext : text = roleText .main secs := by
      simp only [text, if_neg hpid]
      rfl
    have hline : text ++ ['\n'] = roleLine .main secs := by rw [htext, roleLine_eq]
    obtain ⟨hgood, hbad, herror, hpanic⟩ := conclude_cases name pid e
    refine ⟨by rw [hrun, hline], by rw [hrun, htext, lines_roleLine], _,
      slept_duration _ script.sleeps, fun h => absurd h hpid, fun _ => ?_⟩
    refine ⟨idle, e, hidle, hend, ?_, ?_, ?_, ?_, ?_⟩
    · rw [hrun, show written = (roleLine .main secs).size by rw [← hline]]
      rfl
    · intro he
      rw [hrun]
      exact ⟨congrArg Prod.fst (hgood he), congrArg Prod.snd (hgood he)⟩
    · intro c hc he
      rw [hrun]
      exact ⟨congrArg Prod.fst (hbad c hc he), congrArg Prod.snd (hbad c hc he)⟩
    · intro err he
      rw [hrun]
      exact ⟨congrArg Prod.fst (herror err he), congrArg Prod.snd (herror err he)⟩
    · intro he
      rw [hrun]
      exact hpanic he

end ForkProgram

end Offspring
