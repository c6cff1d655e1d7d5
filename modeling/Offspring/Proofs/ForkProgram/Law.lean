import Offspring.ForkProgram.Joint
import Offspring.Proofs.ForkProgram.Replay
/-!
# The law of both processes

Every process of the pair is a run of the program (`Sound.parent_leads`, `Sound.child_leads`),
and every run on replies that the system may give is a process of some pair
(`Pair.exists_reach`), so both can always come to their end (`Sound.completes`).  With what
holds of the pair all along, this gives the law of both processes (`Pair.reach_law`).  The run of
both that is computed (`Joint.run`) is one of the pair (`Joint.exists_reach`), so it leaves both
lines and sleeps twice (`Joint.run_operand`).
-/

namespace Offspring

namespace ForkProgram

namespace Pair

variable {name : Text} {secs : Int} {pid : Pid} {killer : Option Int} {p q : Pair}

/-- What the parent does on the way is what a run does. -/
theorem Sound.parent_leads (h : Sound name secs pid killer p) (hpid : pid ≠ 0)
    (hknown : (fate killer).isKnown = true) (hsecs : secs.toNat ≤ Duration.longest)
    (hr : Reach name secs pid p q) : p.parent.Leads name secs q.parent := by
  induction hr with
  | refl => exact .refl _
  | step hreach hs ih =>
      have hq := h.reach hpid hknown hreach
      cases hs with
      | parent l hown => exact ih.trans (hq.parent.leads hsecs hown)
      | child l hown => exact ih
      | undecided r hplace hr => exact ih.trans (Life.leads_receive hplace hq.parent_handle r)
      | reap d raw hplace hd hraw hr =>
          exact ih.trans (Life.leads_receive hplace hq.parent_handle _)

theorem Sound.child_leads (h : Sound name secs pid killer p) (hpid : pid ≠ 0)
    (hknown : (fate killer).isKnown = true) (hsecs : secs.toNat ≤ Duration.longest)
    (hr : Reach name secs pid p q) : p.child.Leads name secs q.child := by
  induction hr with
  | refl => exact .refl _
  | step hreach hs ih =>
      have hq := h.reach hpid hknown hreach
      cases hs with
      | parent | undecided | reap => exact ih
      | child l hown => exact ih.trans (hq.child.leads hsecs hown)

/-- The parent can make all its own moves while the child makes none. -/
theorem reach_parent (name : Text) (pid : Pid) (p : Pair) {l : Life}
    (hmoves : Relation.ReflTransGen (Own secs) p.parent l) :
    ∃ q, Reach name secs pid p q ∧ q.parent = l ∧ q.child = p.child := by
  induction hmoves with
  | refl => exact ⟨p, .refl p, rfl, rfl⟩
  | tail _ hown ih =>
      obtain ⟨q, hreach, rfl, hchild⟩ := ih
      exact ⟨q.setParent _, .step hreach (.parent q _ hown), rfl, hchild⟩

theorem reach_child (name : Text) (pid : Pid) (p : Pair) {l : Life}
    (hmoves : Relation.ReflTransGen (Own secs) p.child l) :
    ∃ q, Reach name secs pid p q ∧ q.child = l ∧ q.parent = p.parent := by
  induction hmoves with
  | refl => exact ⟨p, .refl p, rfl, rfl⟩
  | tail _ hown ih =>
      obtain ⟨q, hreach, rfl, hparent⟩ := ih
      exact ⟨q.setChild _, .step hreach (.child q _ hown), rfl, hparent⟩

/-- A child that is not killed can come to the end of its run on any signals, whatever is ready
for calls that it does not make. -/
theorem Sound.child_runs (h : Sound name secs pid killer p) (hpid : pid ≠ 0)
    (hknown : (fate killer).isKnown = true) (hsecs : secs.toNat ≤ Duration.longest)
    (halive : ∀ s, p.child.place ≠ .killed s) (signals : List Nat) :
    ∃ q r, Reach name secs pid p q ∧ q.child.record? = some r ∧ q.parent = p.parent ∧
      ∀ forks waits, p.child.resume name secs ⟨forks, waits, signals⟩ = some r := by
  obtain ⟨l, later, hmoves, hl, hrun⟩ := h.child.arrives hsecs halive signals
  obtain ⟨q, hreach, rfl, hparent⟩ := reach_child name pid p hmoves
  have hq := h.reach hpid hknown hreach
  rcases hl with hwaiting | ⟨f, hf⟩
  · have hgoing := hq.child
    simp only [Life.Going, hwaiting] at hgoing
    exact absurd hq.child_handle hgoing.2.2
  · obtain ⟨r, hr⟩ := Life.exists_record hf
    exact ⟨q, r, hreach, hr, hparent, fun forks waits =>
      (hrun name forks waits).trans (Life.resume_of_finished hr _)⟩

/-- A parent that waits takes any replies that tell of no end. -/
theorem hears_undecided (name : Text) (secs : Int) (hwaiting : p.parent.place = .waiting)
    (hparent : p.parent.handle = .parent pid) {idle : List WaitReply}
    (hidle : ∀ r ∈ idle, Undecided r) :
    ∃ q, Reach name secs pid p q ∧ q.child = p.child ∧ q.parent.place = .waiting ∧
      ∀ forks waits signals, p.parent.resume name secs ⟨forks, idle ++ waits, signals⟩ =
        q.parent.resume name secs ⟨forks, waits, signals⟩ := by
  induction idle generalizing p with
  | nil => exact ⟨p, .refl p, rfl, hwaiting, fun _ _ _ => rfl⟩
  | cons r idle ih =>
      obtain ⟨hr, hidle⟩ := List.forall_mem_cons.mp hidle
      let p' := p.setParent (p.parent.receive name pid r)
      have hstep : Step name secs pid p p' := .undecided p r hwaiting hr
      have hsame : p'.parent = _ := Life.receive_of_undecided hr name pid p.parent
      obtain ⟨q, hreach, hchild, hq, hrun⟩ :=
        ih (p := p') (by rw [hsame]; exact hwaiting) (by rw [hsame]; exact hparent) hidle
      refine ⟨q, .trans (.step (.refl p) hstep) hreach, hchild, hq, ?_⟩
      intro forks waits signals
      exact (Life.resume_receive hwaiting hparent r ⟨forks, idle ++ waits, signals⟩).symm.trans
        (hrun forks waits signals)

/-- Once the child has died, the parent can come to the end of its run on any signals and on any
replies of which the first that tells of an end tells of that. -/
theorem Sound.parent_runs (h : Sound name secs pid killer p) (hpid : pid ≠ 0)
    (hknown : (fate killer).isKnown = true) (hsecs : secs.toNat ≤ Duration.longest)
    (hd : p.child.death? = some (fate killer)) {idle : List WaitReply}
    (hidle : ∀ r ∈ idle, Undecided r) {raw : Int} (hraw : Tells (fate killer) raw)
    (signals : List Nat) :
    ∃ q r, Reach name secs pid p q ∧ q.parent.record? = some r ∧ q.child = p.child ∧
      ∀ forks later, p.parent.resume name secs
        ⟨forks, idle ++ .returned pid raw :: later, signals⟩ = some r := by
  obtain ⟨l, ahead, hmoves, hl, hrun⟩ := h.parent.arrives hsecs h.parent_alive signals
  obtain ⟨o, hpo, rfl, hchild⟩ := reach_parent name pid p hmoves
  rcases hl with hwaiting | ⟨f, hf⟩
  · have ho := h.reach hpid hknown hpo
    obtain ⟨q, hoq, hsame, hwaiting', hheard⟩ :=
      hears_undecided name secs hwaiting ho.parent_handle hidle
    have hq := ho.reach hpid hknown hoq
    have hstep : Step name secs pid q _ := .reap q (fate killer) raw hwaiting'
      (by rw [hsame, hchild, hd]) hraw (hq.not_reaped hwaiting')
    obtain ⟨f, hf⟩ := (hq.step hpid hknown hstep).reaped.mp rfl
    obtain ⟨r, hr⟩ := Life.exists_record hf
    refine ⟨_, r, .step (hpo.trans hoq) hstep, hr, hsame.trans hchild, fun forks later => ?_⟩
    calc p.parent.resume name secs ⟨forks, idle ++ .returned pid raw :: later, signals⟩
        = o.parent.resume name secs ⟨forks, idle ++ .returned pid raw :: later, ahead⟩ :=
          hrun name forks _
      _ = q.parent.resume name secs ⟨forks, .returned pid raw :: later, ahead⟩ :=
          hheard forks _ ahead
      _ = (q.parent.receive name pid (.returned pid raw)).resume name secs
            ⟨forks, later, ahead⟩ :=
          (Life.resume_receive hwaiting' hq.parent_handle _ ⟨forks, later, ahead⟩).symm
      _ = some r := Life.resume_of_finished hr _
  · obtain ⟨r, hr⟩ := Life.exists_record hf
    exact ⟨o, r, hpo, hr, hchild, fun forks later =>
      (hrun name forks _).trans (Life.resume_of_finished hr _)⟩

/-- From wherever they are, both processes can come to their end. -/
theorem Sound.completes (h : Sound name secs pid killer p) (hpid : pid ≠ 0)
    (hknown : (fate killer).isKnown = true) (hsecs : secs.toNat ≤ Duration.longest) :
    ∃ q f, Reach name secs pid p q ∧ q.parent.place = .finished f ∧
      q.child.death? = some (fate killer) := by
  obtain ⟨o, hpo, hd⟩ : ∃ o, Reach name secs pid p o ∧ o.child.death? = some (fate killer) := by
    cases hplace : p.child.place with
    | killed signal =>
        obtain rfl := (h.child_killed signal).mp hplace
        exact ⟨p, .refl p, by simp [Life.death?, hplace, fate]⟩
    | printing | sleeping | waiting | finished =>
        obtain ⟨o, r, hpo, hr, _⟩ := h.child_runs hpid hknown hsecs (by simp [hplace]) []
        exact ⟨o, hpo, (h.reach hpid hknown hpo).death_of_finish
          (Life.record?_eq_some_iff.mp hr).1⟩
  have hraw : Tells (fate killer) (fate killer).raw := by
    cases fate killer with
    | exit status => exact .exit status
    | signal number => exact .signal number
  have hidle : ∀ r ∈ ([] : List WaitReply), Undecided r := by simp
  obtain ⟨q, r, hoq, hr, hchild, _⟩ :=
    (h.reach hpid hknown hpo).parent_runs hpid hknown hsecs hd hidle hraw []
  exact ⟨q, _, hpo.trans hoq, (Life.record?_eq_some_iff.mp hr).1, by rw [hchild, hd]⟩

/-- What the parent says when a signal has killed the child. -/
theorem conclude_fate_killed (name : Text) (pid : Pid) {signal : Int} (h : 1 ≤ signal) :
    conclude name pid (.status (fate (some signal)).status) =
      (.exited 1, name ++ ": child process ".toList ++ Decimal.ofInt pid ++
        " exited with status ".toList ++ Decimal.ofInt (128 + signal) ++ ['\n']) :=
  (conclude_cases name pid _).2.1 (128 + signal) (by omega) rfl

/-- A process that has ended has written its line. -/
theorem finished_line {l : Life} (h : l.Going secs) {r : Record} (hr : l.record? = some r) :
    r.stdout = roleLine l.handle.role secs ∧ r.stderr = l.complaint ∧
      l.out.written = r.stdout := by
  obtain ⟨hplace, hr⟩ := Life.record?_eq_some_iff.mp hr
  simp only [Life.Going, hplace] at h
  have hwritten : l.out.written = roleLine l.handle.role secs := by rw [h.1, Life.line]
  rw [hr]
  exact ⟨hwritten, rfl, rfl⟩

theorem Sound.parent_finish (h : Sound name secs pid none p) {f : Finish}
    (hf : p.parent.place = .finished f) : f = .exited 0 ∧ p.parent.complaint = [] := by
  obtain ⟨_, hend⟩ := h.parent_end f hf
  exact Prod.mk.inj hend

/-- A parent that has ended has learned of the end of a child that has ended well. -/
theorem Sound.child_first (h : Sound name secs pid none p) {f : Finish}
    (hf : p.parent.place = .finished f) :
    p.child.place = .finished (.exited 0) ∧ p.reaped = true := by
  obtain ⟨hd, _⟩ := h.parent_end f hf
  refine ⟨?_, h.reaped.mpr ⟨f, hf⟩⟩
  unfold Life.death? at hd
  split at hd
  · next hplace => rw [hplace, (h.child_finish hplace).2.1]; rfl
  · next hplace => cases (h.child_killed _).mp hplace
  · cases hd

section Runs

variable {argv : List Bytes} {operand : Bytes}

/-- What an operand stands for is a number of seconds that one call can be asked for. -/
theorem secs_le_longest (t : Text) : (Operand.leadingInt t).toNat ≤ Duration.longest := by
  have hbounds := Operand.leadingInt_bounds t
  unfold Operand.largest at hbounds
  unfold Duration.longest
  omega

/-- **Every run that the system allows is in a pair.**  Let a system return `pid` to the fork of
the parent, reply to its waits with anything that tells of no end and then with the exit of the
child, and let any signals come into the sleeps of both.  Then some pair comes to where both
processes leave what the runs of the program on those systems leave. -/
theorem exists_reach (hone : argv.tail = [operand]) (hpid : pid ≠ 0) {ofParent ofChild : Script}
    (hparent : ofParent.nextFork.1 = .returned pid) (hchild : ofChild.nextFork.1 = .returned 0)
    {idle later : List WaitReply} {raw : Int}
    (hwaits : ofParent.waits = idle ++ .returned pid raw :: later)
    (hidle : ∀ r ∈ idle, Undecided r) (hraw : Tells (.exit success) raw) :
    ∃ p, Reach (programName argv) (Operand.leadingInt (Utf8.lossy operand)) pid (start pid) p ∧
      p.parent.record? = some (run argv ofParent) ∧ p.child.record? = some (run argv ofChild) := by
  have hrest (script : Script) :
      script.nextFork.2 = ⟨script.nextFork.2.forks, script.waits, script.sleeps⟩ := by
    obtain ⟨hsleeps, hwaits⟩ := nextFork_rest script
    rw [← hsleeps, ← hwaits]
  have hsecs := secs_le_longest (Utf8.lossy operand)
  have hstart : Sound (programName argv) (Operand.leadingInt (Utf8.lossy operand)) pid none
      (start pid) := sound_start
  obtain ⟨q, s, hq, hs, hsame, hchildRun⟩ :=
    hstart.child_runs hpid rfl hsecs (by simp [start, Life.start]) ofChild.sleeps
  have hsound := hstart.reach hpid rfl hq
  obtain ⟨p, r, hp, hr, hkept, hparentRun⟩ := hsound.parent_runs hpid rfl hsecs
    (hsound.death_of_finish (Life.record?_eq_some_iff.mp hs).1) hidle hraw ofParent.sleeps
  have hrunChild := Life.resume_start hone hchild
  have hrunParent := Life.resume_start hone hparent
  rw [if_pos rfl, hrest] at hrunChild
  rw [if_neg hpid, hrest, hwaits] at hrunParent
  refine ⟨p, hq.trans hp, ?_, ?_⟩
  · rw [hr, ← hrunParent, ← hparentRun _ later, hsame]
    rfl
  · rw [hkept, hs, ← hrunChild, ← hchildRun]
    rfl

end Runs

end Pair

namespace Joint

variable {argv : List Bytes} {operand : Bytes}

/-- Without exactly one operand there is no child. -/
theorem run_usage (h : argv.tail.length ≠ 1) :
    Joint.run argv = ⟨none, ⟨.exited 1, usage argv.tail.length, [], []⟩⟩ := by
  simp [Joint.run, ForkProgram.run_usage _ h]

/-- **The joint run is the run of a pair.** -/
theorem exists_reach (hone : argv.tail = [operand]) :
    ∃ p, Pair.Reach (programName argv) (Operand.leadingInt (Utf8.lossy operand)) pid
        (Pair.start pid) p ∧
      p.parent.record? = some (Joint.run argv).parent ∧
      p.child.record? = (Joint.run argv).child := by
  have hpid : pid ≠ 0 := by decide
  let ofChild : Script := ⟨[.returned 0], [], []⟩
  have hforkedChild : ofChild.nextFork.1 = .returned 0 := rfl
  let raw := (deathOf (ForkProgram.run argv ofChild)).raw
  have hraw : Tells (.exit success) raw := by
    have hended : deathOf (ForkProgram.run argv ofChild) = .exit success := by
      rw [run_child hone hforkedChild]
      rfl
    simp only [raw, hended]
    exact .exit success
  let ofParent : Script := ⟨[.returned pid], [.returned pid raw], []⟩
  have hforkedParent : ofParent.nextFork.1 = .returned pid := rfl
  have hwaits : ofParent.waits = [] ++ .returned pid raw :: [] := rfl
  have hidle : ∀ r ∈ ([] : List WaitReply), Undecided r := by simp
  obtain ⟨p, hp, hparent, hchild⟩ :=
    Pair.exists_reach hone hpid hforkedParent hforkedChild hwaits hidle hraw
  have hforked : (ForkProgram.run argv ofParent).calls ≠ [] := by
    obtain ⟨_, _, _, _, hrun⟩ := run_parent hone hforkedParent hpid
    rw [hrun]
    exact List.cons_ne_nil _ _
  refine ⟨p, hp, hparent, ?_⟩
  rw [hchild]
  exact (if_neg (by simpa using hforked)).symm

/-- The sleeps of a process can be told from what it asks of the system. -/
theorem sleepsOf_of_requests {calls : List Call} {ds : List Duration} {waits : Nat} {child : Pid}
    (h : calls.map (·.request) = .fork ::
      (ds.map (fun d => .sleep d.secs d.nanos) ++ List.replicate waits (.waitpid child))) :
    sleepsOf calls = ds.map fun d => .sleep d.secs d.nanos := by
  have hsame : sleepsOf calls = sleepsOf ((calls.map (·.request)).map (⟨·, 0⟩)) := by
    simp only [sleepsOf, List.map_map, List.filterMap_map, Function.comp_def]
  rw [hsame, h]
  simp [sleepsOf, List.filterMap_map, Function.comp_def]

/-- Where no signal comes, a process sleeps once, if there is time to sleep. -/
theorem sleepsOf_run {script : Script} {reply : Pid} (hone : argv.tail = [operand])
    (hfork : script.nextFork.1 = .returned reply) (hquiet : script.sleeps = []) :
    let secs := Operand.leadingInt (Utf8.lossy operand)
    sleepsOf (ForkProgram.run argv script).calls =
      if secs ≤ 0 then [] else [.sleep secs.toNat 0] := by
  intro secs
  have hle : (duration secs).secs ≤ Duration.longest := Pair.secs_le_longest _
  have hzero : (duration secs).isZero = true ↔ secs ≤ 0 := by simp [duration, Duration.isZero]
  obtain ⟨waits, _, hcalls⟩ := requests_run hone hfork
  rw [sleepsOf_of_requests hcalls, hquiet, sleepOn, Duration.requests_of_le hle]
  simp only [hzero]
  split <;> rfl

/-- **What both runs leave.**  There are two lines, one of each process, and two sleeps if there
is time to sleep, and nobody complains. -/
theorem run_operand (hone : argv.tail = [operand]) :
    let secs := Operand.leadingInt (Utf8.lossy operand)
    let j := Joint.run argv
    j.lines = [roleText .child secs, roleText .main secs] ∧ j.stderr = [] ∧
      j.sleeps = (if secs ≤ 0 then [] else [.sleep secs.toNat 0, .sleep secs.toNat 0]) ∧
      j.parent.finish = .exited 0 := by
  intro secs j
  have hpid : pid ≠ 0 := by decide
  obtain ⟨p, hreach, hparent, hchild⟩ := exists_reach hone
  have hstart : Pair.Sound (programName argv) secs pid none (Pair.start pid) := Pair.sound_start
  have hp := hstart.reach hpid rfl hreach
  obtain ⟨hfinish, hquiet⟩ := hp.parent_finish (Life.record?_eq_some_iff.mp hparent).1
  obtain ⟨hmain, hsaid, _⟩ := Pair.finished_line hp.parent hparent
  obtain ⟨hended, _⟩ := hp.child_first (Life.record?_eq_some_iff.mp hparent).1
  obtain ⟨s, hs⟩ := Life.exists_record hended
  obtain ⟨hother, hchildSaid, _⟩ := Pair.finished_line hp.child hs
  obtain ⟨_, _, hchildQuiet⟩ := hp.child_finish (Life.record?_eq_some_iff.mp hs).1
  rw [hp.parent_handle] at hmain
  rw [hp.child_handle] at hother
  have hboth : j.records = [s, j.parent] := by
    rw [records, ← hchild, hs]
    rfl
  have hrun : s = ForkProgram.run argv ⟨[.returned 0], [], []⟩ := by
    have hsome : j.child = some s := hchild.symm.trans hs
    simp only [j, Joint.run, Option.ite_none_left_eq_some, Option.some.injEq] at hsome
    exact hsome.2.symm
  refine ⟨?_, ?_, ?_, hfinish⟩
  · have hlines : (j.records.flatMap fun r => r.stdout.lines) =
        [roleText .child secs, roleText .main secs] := by
      rw [hboth, List.flatMap_cons, List.flatMap_cons, hother, hmain, lines_roleLine,
        lines_roleLine]
      rfl
    rw [lines, hlines]
    refine List.mergeSort_of_pairwise ?_
    rw [List.pairwise_pair]
    rfl
  · rw [stderr, hboth, List.flatMap_cons, List.flatMap_cons, hchildSaid, hsaid, hchildQuiet, hquiet]
    rfl
  · have hchildSleeps : sleepsOf s.calls = _ := hrun ▸ sleepsOf_run hone rfl rfl
    have hparentSleeps : sleepsOf j.parent.calls = _ := sleepsOf_run hone rfl rfl
    rw [sleeps, hboth, List.flatMap_cons, List.flatMap_cons, hchildSleeps, hparentSleeps]
    split <;> rfl

end Joint

namespace Pair

/-- **The law of both processes.**  Take the program with one operand after a fork that
worked, and let both processes move in any order, with any interruptions of the sleeps and
any replies that decide nothing.  When both have ended, both have exited with zero and said
nothing on standard error, each has written one line, with its side and the number, and the
screen has the two lines in one order or the other.  Each process that has ended is a run of the
program, on the replies and the signals that it met, and all the calls of its sleep last for the
seconds of the operand, or for none if they are negative.  If the parent has ended, the child has
ended well before and was reaped.  Both can always come to their end.  If a signal kills the
child, the parent can end, but only with one, naming the child and the status.

The other way round, let the program run on a system that returns the child's pid to its fork and
comes to report the exit of the child, after any replies that decide nothing, and on one that
returns zero.  These two runs are those of a pair, and so are the two that are computed
together. -/
theorem reach_law {argv : List Bytes} {operand : Bytes} (hone : argv.tail = [operand]) :
    let name := programName argv
    let secs := Operand.leadingInt (Utf8.lossy operand)
    let text (who : String) :=
      who.toList ++ ": sleeping ".toList ++ Decimal.ofInt secs ++ " seconds".toList
    (∀ pid, pid ≠ 0 → ∀ p, Reach name secs pid (start pid) p →
      (∀ r s, p.parent.record? = some r → p.child.record? = some s →
        r.finish = .exited 0 ∧ s.finish = .exited 0 ∧ r.stderr = [] ∧ s.stderr = [] ∧
        r.stdout = text "Main Process" ++ ['\n'] ∧ r.stdout.lines = [text "Main Process"] ∧
        s.stdout = text "Child Process" ++ ['\n'] ∧ s.stdout.lines = [text "Child Process"] ∧
        (p.screen = r.stdout ++ s.stdout ∨ p.screen = s.stdout ++ r.stdout)) ∧
      (∀ r, p.parent.record? = some r → p.parent.IsRun argv secs pid r) ∧
      (∀ s, p.child.record? = some s → p.child.IsRun argv secs 0 s) ∧
      (∀ f, p.parent.place = .finished f →
        p.child.place = .finished (.exited 0) ∧ p.reaped = true) ∧
      (∃ q, Reach name secs pid p q ∧ q.parent.place = .finished (.exited 0) ∧
        q.child.place = .finished (.exited 0)) ∧
      ∀ signal, 1 ≤ signal → signal ≤ 31 → ∀ q o, Kill signal p q → Reach name secs pid q o →
        (∀ r, o.parent.record? = some r → r.finish = .exited 1 ∧
          r.stderr = name ++ ": child process ".toList ++ Decimal.ofInt pid ++
            " exited with status ".toList ++ Decimal.ofInt (128 + signal) ++ ['\n'] ∧
          o.parent.IsRun argv secs pid r) ∧
        ∃ t r, Reach name secs pid o t ∧ t.parent.record? = some r) ∧
    (∀ (pid : Pid) (ofParent ofChild : Script) (idle later : List WaitReply) (raw : Int),
      pid ≠ 0 → ofParent.nextFork.1 = .returned pid → ofChild.nextFork.1 = .returned 0 →
      ofParent.waits = idle ++ .returned pid raw :: later → (∀ r ∈ idle, Undecided r) →
      Tells (.exit success) raw →
      ∃ p, Reach name secs pid (start pid) p ∧ p.parent.record? = some (run argv ofParent) ∧
        p.child.record? = some (run argv ofChild)) ∧
    ∃ p, Reach name secs Joint.pid (start Joint.pid) p ∧
      p.parent.record? = some (Joint.run argv).parent ∧
      p.child.record? = (Joint.run argv).child := by
  intro name secs text
  have hallowed (pid : Pid) (ofParent ofChild : Script) (idle later : List WaitReply) (raw : Int)
      (hpid : pid ≠ 0) (hparent : ofParent.nextFork.1 = .returned pid)
      (hchild : ofChild.nextFork.1 = .returned 0)
      (hwaits : ofParent.waits = idle ++ .returned pid raw :: later)
      (hidle : ∀ r ∈ idle, Undecided r) (hraw : Tells (.exit success) raw) :=
    exists_reach hone hpid hparent hchild hwaits hidle hraw
  refine ⟨fun pid hpid p hreach => ?_, hallowed, Joint.exists_reach hone⟩
  have hsecs : secs.toNat ≤ Duration.longest := secs_le_longest _
  have hstart : Sound name secs pid none (start pid) := sound_start
  have hp := hstart.reach hpid rfl hreach
  have hparent :
      (Life.start (if pid = 0 then .child else .parent pid)).Leads name secs p.parent := by
    rw [if_neg hpid]
    exact hstart.parent_leads hpid rfl hsecs hreach
  refine ⟨fun r s hr hs => ?_, fun r hr => hparent.isRun hone hr, fun s hs => ?_,
    fun f hf => hp.child_first hf, ?_, fun signal hlow hhigh q o hk hqo => ?_⟩
  · obtain ⟨hmain, hsaid, hmainOut⟩ := finished_line hp.parent hr
    obtain ⟨hother, hchildSaid, hotherOut⟩ := finished_line hp.child hs
    obtain ⟨hfinish, hquiet⟩ := hp.parent_finish (Life.record?_eq_some_iff.mp hr).1
    obtain ⟨_, hchildFinish, hchildQuiet⟩ := hp.child_finish (Life.record?_eq_some_iff.mp hs).1
    rw [hp.parent_handle] at hmain
    rw [hp.child_handle] at hother
    refine ⟨hfinish, hchildFinish, hsaid.trans hquiet, hchildSaid.trans hchildQuiet,
      hmain.trans (roleLine_eq _ _), ?_, hother.trans (roleLine_eq _ _), ?_, ?_⟩
    · rw [hmain, lines_roleLine]
      rfl
    · rw [hother, lines_roleLine]
      rfl
    · rw [← hmainOut, ← hotherOut]
      exact hp.screen
  · have hchild := hstart.child_leads hpid rfl hsecs hreach
    exact Life.Leads.isRun hone hchild hs
  · obtain ⟨q, f, hpq, hf, _⟩ := hp.completes hpid rfl hsecs
    have hq := hp.reach hpid rfl hpq
    obtain ⟨rfl, _⟩ := hq.parent_finish hf
    exact ⟨q, hpq, hf, (hq.child_first hf).1⟩
  · have hknown : (fate (some signal)).isKnown = true := by
      simp [fate, Death.isKnown, Report.isKnownSignal, hlow, hhigh]
    have hq := hp.kill hk
    have ho := hq.reach hpid hknown hqo
    have hsame : q.parent = p.parent := by
      cases hk
      rfl
    refine ⟨fun r hr => ?_, ?_⟩
    · have hf := (Life.record?_eq_some_iff.mp hr).1
      have hend := (ho.parent_end r.finish hf).2.trans (conclude_fate_killed name pid hlow)
      obtain ⟨hfinish, hcomplaint⟩ := Prod.mk.inj hend
      have hleads := hq.parent_leads hpid hknown hsecs hqo
      rw [hsame] at hleads
      exact ⟨hfinish, (finished_line ho.parent hr).2.1.trans hcomplaint,
        (hparent.trans hleads).isRun hone hr⟩
    · obtain ⟨t, f, hot, hf, _⟩ := ho.completes hpid hknown hsecs
      obtain ⟨r, hr⟩ := Life.exists_record hf
      exact ⟨t, r, hot, hr⟩

/-- The program called for one second, with a child that gets the pid seven.  On one system a
signal comes at once into the sleep of the parent, and another into its wait. -/
theorem reach_law_one_second :
    let argv : List Bytes := [[0x66, 0x6F, 0x72, 0x6B], [0x31]]
    let ofParent : Script :=
      ⟨[.returned 7], [.failed Errno.interrupted, .returned 7 (Death.exit 0).raw], [0]⟩
    let ofChild : Script := ⟨[.returned 0], [], []⟩
    argv.tail = [[0x31]] ∧ (7 : Pid) ≠ 0 ∧
    (∃ p r s, Reach "fork".toList 1 7 (start 7) p ∧ p.parent.record? = some r ∧
      p.child.record? = some s ∧ r.finish = .exited 0 ∧ s.finish = .exited 0 ∧
      r.stdout = "Main Process: sleeping 1 seconds\n".toList ∧
      s.stdout = "Child Process: sleeping 1 seconds\n".toList ∧
      p.parent.IsRun argv 1 7 r ∧ p.child.IsRun argv 1 0 s) ∧
    (∃ p, Reach "fork".toList 1 7 (start 7) p ∧ p.parent.record? = some (run argv ofParent) ∧
      p.child.record? = some (run argv ofChild)) ∧
    ∃ p q r, Kill 9 (start 7) p ∧ Reach "fork".toList 1 7 p q ∧ q.parent.record? = some r ∧
      r.finish = .exited 1 ∧
      r.stderr = "fork: child process 7 exited with status 137\n".toList := by
  intro argv ofParent ofChild
  have hone : argv.tail = [[0x31]] := rfl
  have hpid : (7 : Pid) ≠ 0 := by decide
  have hname : programName argv = "fork".toList := by decide
  have hsecs : Operand.leadingInt (Utf8.lossy [0x31]) = 1 := by decide
  obtain ⟨hlaw, hallowed, _⟩ := reach_law hone
  rw [hname, hsecs] at hlaw hallowed
  replace hlaw := hlaw 7 hpid
  refine ⟨hone, hpid, ?_, ?_, ?_⟩
  · obtain ⟨_, _, _, _, ⟨p, hp, hf, hg⟩, _⟩ := hlaw (start 7) (.refl _)
    obtain ⟨hboth, hmainRun, hchildRun, _⟩ := hlaw p hp
    obtain ⟨r, hr⟩ := Life.exists_record hf
    obtain ⟨s, hs⟩ := Life.exists_record hg
    obtain ⟨hfinish, hchildFinish, _, _, hmain, _, hchild, _⟩ := hboth r s hr hs
    exact ⟨p, r, s, hp, hr, hs, hfinish, hchildFinish, hmain.trans (by decide +kernel),
      hchild.trans (by decide +kernel), hmainRun r hr, hchildRun s hs⟩
  · have hidle : ∀ r ∈ [WaitReply.failed Errno.interrupted], Undecided r := by
      simpa using Undecided.interrupted
    exact hallowed 7 ofParent ofChild [.failed Errno.interrupted] [] _ hpid rfl rfl rfl hidle
      (.exit success)
  · obtain ⟨_, _, _, _, _, hkilled⟩ := hlaw (start 7) (.refl _)
    have hkill : Kill 9 (start 7) _ := .child _ rfl
    obtain ⟨_, q, r, hq, hr⟩ := hkilled 9 (by decide) (by decide) _ _ hkill (.refl _)
    obtain ⟨hend, _⟩ := hkilled 9 (by decide) (by decide) _ q hkill hq
    obtain ⟨hfinish, hcomplaint, _⟩ := hend r hr
    exact ⟨_, q, r, hkill, hq, hr, hfinish, hcomplaint.trans (by decide +kernel)⟩

end Pair

end ForkProgram

end Offspring
