import Mathlib.Logic.Relation
import Offspring.Proofs.ForkProgram.Pair
import Offspring.Proofs.ForkProgram.Sleep
/-!
# A process of the pair is a run of the program

A process of the pair keeps the replies to its waits and the signals into its sleeps.  They make
up a script, and the program on that script leaves what the process leaves, with the same calls:
`Life.resume` is the rest of the run from any place, and a move takes from the script what the
process meets in it (`Life.Leads`).  So a process that has ended is a run (`Life.Leads.isRun`),
and it has slept as long as a run sleeps (`Life.IsRun.slept`).

The other way round, a process can come to the end of its sleep on any signals
(`Life.Going.arrives`), and can be where any run on them is.
-/

namespace Offspring

/-- A script with more waits and sleeps at its front. -/
def Script.before (s : Script) (waits : List WaitReply) (sleeps : List Nat) : Script :=
  { s with waits := waits ++ s.waits, sleeps := sleeps ++ s.sleeps }

theorem Script.before_before (s : Script) (waits waits' : List WaitReply)
    (sleeps sleeps' : List Nat) :
    (s.before waits' sleeps').before waits sleeps =
      s.before (waits ++ waits') (sleeps ++ sleeps') := by
  simp [before]

theorem Script.nextFork_before (s : Script) (waits : List WaitReply) (sleeps : List Nat) :
    (s.before waits sleeps).nextFork.1 = s.nextFork.1 ∧
      (s.before waits sleeps).nextFork.2 = s.nextFork.2.before waits sleeps := by
  obtain ⟨forks, _, _⟩ := s
  cases forks <;> exact ⟨rfl, rfl⟩

namespace ForkProgram

/-- How the program goes on after its sleep, with the calls that it has made. -/
def afterSleep (name : Text) (h : Handle) (calls : List Call) (s : System) : Record :=
  match h with
  | .child => ⟨.exited success, s.flush.out.written, [], calls⟩
  | .parent child =>
    let waited := s.waitPid child
    let (finish, complaint) := conclude name child waited.result
    ⟨finish, waited.after.flush.out.written, complaint, calls ++ waited.calls⟩

/-- How it goes on with so much of its sleep left. -/
def fromSleep (name : Text) (h : Handle) (calls : List Call) (s : System) (d : Duration) :
    Record :=
  afterSleep name h (calls ++ (s.sleep d).calls) (s.sleep d).after

/-- From its line on the program goes on with its sleep. -/
theorem afterFork_eq (name : Text) (secs : Int) (h : Handle) (calls : List Call) (s : System) :
    { afterFork name secs h s with calls := calls ++ (afterFork name secs h s).calls } =
      fromSleep name h calls (s.print (roleLine h.role secs)) (duration secs) := by
  cases h with
  | child => rfl
  | parent child => simp [afterFork, fromSleep, afterSleep]

section Sleep

variable {name : Text} {h : Handle} {calls : List Call} {script : Script} {out : Stdout}
  {d : Duration} {n : Nat}

theorem fromSleep_of_isZero (hzero : d.isZero = true) :
    fromSleep name h calls ⟨script, out⟩ d = afterSleep name h calls ⟨script, out⟩ := by
  simp [fromSleep, System.sleep, sleepOn_of_isZero hzero]

/-- An interrupted call of a sleep is followed by what is left of the sleep. -/
theorem fromSleep_of_lt (hd : d.secs ≤ Duration.longest) (hn : n < d.secs) :
    fromSleep name h calls ⟨script.before [] [n], out⟩ d =
      fromSleep name h (calls ++ [⟨.sleep d.secs d.nanos, out.bytesWritten⟩]) ⟨script, out⟩
        (d.after n) := by
  simp [fromSleep, System.sleep, Script.before, sleepOn_of_lt hd hn, System.call]

/-- A call that runs to its end is the last of a sleep. -/
theorem fromSleep_of_late (hd : d.secs ≤ Duration.longest) (hsome : d.isZero = false)
    (hn : d.secs ≤ n) :
    fromSleep name h calls ⟨script.before [] [n], out⟩ d =
      afterSleep name h (calls ++ [⟨.sleep d.secs d.nanos, out.bytesWritten⟩]) ⟨script, out⟩ := by
  simp [fromSleep, System.sleep, Script.before, sleepOn_of_late hd hsome hn, System.call]

/-- No signal at all is one that comes too late. -/
theorem fromSleep_of_no_signal (hd : d.secs ≤ Duration.longest) (hsome : d.isZero = false)
    {forks : List ForkReply} {waits : List WaitReply} :
    fromSleep name h calls ⟨⟨forks, waits, []⟩, out⟩ d =
      fromSleep name h calls ⟨⟨forks, waits, [d.secs]⟩, out⟩ d := by
  have hnone : sleepOn d [] = ([d], []) := by
    rw [sleepOn, Duration.requests_of_le hd, if_neg (by simp [hsome])]
  simp [fromSleep, System.sleep, hnone, sleepOn_of_late hd hsome (Nat.le_refl _), System.call]

end Sleep

namespace Life

/-- What a process of the pair would leave on a script, from the place where it is; one that
was killed leaves no record. -/
def resume (name : Text) (secs : Int) (l : Life) (script : Script) : Option Record :=
  let s : System := ⟨script, l.out⟩
  match l.place with
  | .printing =>
    some (fromSleep name l.handle l.calls (s.print (roleLine l.handle.role secs)) (duration secs))
  | .sleeping left => some (fromSleep name l.handle l.calls s left)
  | .waiting => some (afterSleep name l.handle l.calls s)
  | .finished _ => l.record?
  | .killed _ => none

variable {name : Text} {secs : Int} {pid : Pid} {l l' : Life}

theorem record?_eq_some_iff {r : Record} :
    l.record? = some r ↔
      l.place = .finished r.finish ∧ r = ⟨r.finish, l.out.written, l.complaint, l.calls⟩ := by
  unfold record?
  cases hplace : l.place with
  | finished f =>
      constructor
      · intro h
        obtain rfl := Option.some.inj h
        exact ⟨rfl, rfl⟩
      · rintro ⟨hf, hr⟩
        obtain rfl := Place.finished.inj hf
        rw [hr]
  | _ => simp

/-- A process that has ended by itself leaves a record. -/
theorem exists_record {f : Finish} (h : l.place = .finished f) : ∃ r, l.record? = some r := by
  simp only [record?, h]
  exact ⟨_, rfl⟩

theorem resume_of_finished {r : Record} (h : l.record? = some r) (script : Script) :
    l.resume name secs script = some r := by
  simp only [resume, (record?_eq_some_iff.mp h).1, h]

theorem resume_awake (h : l.complaint = []) (script : Script) :
    l.awake.resume name secs script = some (afterSleep name l.handle l.calls ⟨script, l.out⟩) := by
  unfold awake
  split
  · rfl
  · next hchild => simp [resume, record?, finish, afterSleep, hchild, h, System.flush]

theorem resume_rest (h : l.complaint = []) (left : Duration) (script : Script) :
    (l.rest left).resume name secs script =
      some (fromSleep name l.handle l.calls ⟨script, l.out⟩ left) := by
  unfold rest
  split
  · next hzero => rw [resume_awake h, fromSleep_of_isZero hzero]
  · rfl

theorem resume_print (hplace : l.place = .printing) (h : l.complaint = []) (script : Script) :
    (l.print secs).resume name secs script = l.resume name secs script := by
  rw [print, resume_rest (by exact h)]
  simp only [resume, hplace]
  rfl

/-- A sleep takes the signal that comes into it. -/
theorem resume_sleep {left : Duration} (hplace : l.place = .sleeping left)
    (h : l.complaint = []) (hleft : left.secs ≤ Duration.longest) (hsome : left.isZero = false)
    (n : Nat) (script : Script) :
    (l.sleep left n).resume name secs script = l.resume name secs (script.before [] [n]) := by
  have hrun : l.resume name secs (script.before [] [n]) =
      some (fromSleep name l.handle l.calls ⟨script.before [] [n], l.out⟩ left) := by
    simp only [resume, hplace]
  rw [hrun, sleep]
  by_cases hn : n < left.secs
  · rw [if_pos hn, resume_rest (by exact h), fromSleep_of_lt hleft hn]
    rfl
  · rw [if_neg hn, resume_awake (by exact h), fromSleep_of_late hleft hsome (Nat.not_lt.mp hn)]
    rfl

/-- A wait takes its reply. -/
theorem resume_receive (hplace : l.place = .waiting) (hparent : l.handle = .parent pid)
    (r : WaitReply) (script : Script) :
    (l.receive name pid r).resume name secs script =
      l.resume name secs (script.before [r] []) := by
  cases hr : r.judge pid with
  | again =>
      simp [resume, receive, called, hplace, hparent, afterSleep, System.waitPid, Script.before,
        waitOn, hr, System.flush, System.call, List.replicate_succ]
  | ends e =>
      simp [resume, receive, called, finish, record?, hplace, hparent, afterSleep, System.waitPid,
        Script.before, waitOn, hr, System.flush, System.call]

/-- A process at one place is a run that comes to another, on the replies and the signals that
it meets on the way. -/
def Leads (name : Text) (secs : Int) (l l' : Life) : Prop :=
  ∃ waits signals, l'.waits = l.waits ++ waits ∧ l'.signals = l.signals ++ signals ∧
    ∀ script : Script,
      l.resume name secs (script.before waits signals) = l'.resume name secs script

theorem Leads.refl (l : Life) : l.Leads name secs l :=
  ⟨[], [], by simp, by simp, fun _ => rfl⟩

theorem Leads.trans {l'' : Life} (h : l.Leads name secs l') (h' : l'.Leads name secs l'') :
    l.Leads name secs l'' := by
  obtain ⟨waits, signals, hwaits, hsignals, hrun⟩ := h
  obtain ⟨waits', signals', hwaits', hsignals', hrun'⟩ := h'
  refine ⟨waits ++ waits', signals ++ signals', ?_, ?_, fun script => ?_⟩
  · rw [hwaits', hwaits, List.append_assoc]
  · rw [hsignals', hsignals, List.append_assoc]
  · rw [← Script.before_before, hrun, hrun']

theorem met_awake (l : Life) : l.awake.waits = l.waits ∧ l.awake.signals = l.signals := by
  unfold awake
  split <;> exact ⟨rfl, rfl⟩

theorem met_rest (left : Duration) (l : Life) :
    (l.rest left).waits = l.waits ∧ (l.rest left).signals = l.signals := by
  unfold rest
  split
  · exact met_awake l
  · exact ⟨rfl, rfl⟩

theorem met_print (secs : Int) (l : Life) :
    (l.print secs).waits = l.waits ∧ (l.print secs).signals = l.signals :=
  met_rest (duration secs) _

theorem met_sleep (left : Duration) (n : Nat) (l : Life) :
    (l.sleep left n).waits = l.waits ∧ (l.sleep left n).signals = l.signals ++ [n] := by
  unfold sleep
  dsimp only
  split
  · exact met_rest (left.after n) _
  · exact met_awake _

theorem met_receive (name : Text) (pid : Pid) (r : WaitReply) (l : Life) :
    (l.receive name pid r).waits = l.waits ++ [r] ∧
      (l.receive name pid r).signals = l.signals := by
  unfold receive
  dsimp only
  split <;> exact ⟨rfl, rfl⟩

/-- A process that is going to sleep has time left, and not more than one call can be asked
for. -/
theorem Going.left (h : l.Going secs) (hsecs : secs.toNat ≤ Duration.longest) {left : Duration}
    (hplace : l.place = .sleeping left) :
    l.complaint = [] ∧ left.secs ≤ Duration.longest ∧ left.isZero = false := by
  simp only [Going, hplace] at h
  obtain ⟨_, hcomplaint, _, hpos, hleft⟩ := h
  have hne : left.secs ≠ 0 := by omega
  exact ⟨hcomplaint, Nat.le_trans hleft hsecs, by simp [Duration.isZero, hne]⟩

/-- A process that moves on its own meets the signal into its sleep, if it sleeps. -/
theorem Going.leads (h : l.Going secs) (hsecs : secs.toNat ≤ Duration.longest)
    (hown : Pair.Own secs l l') : l.Leads name secs l' := by
  cases hown with
  | print hplace =>
      have hgoing := h
      simp only [Going, hplace] at hgoing
      obtain ⟨hwaits, hsignals⟩ := met_print secs l
      refine ⟨[], [], by simpa using hwaits, by simpa using hsignals, fun script => ?_⟩
      exact (resume_print hplace hgoing.2 script).symm
  | sleep left n hplace =>
      obtain ⟨hcomplaint, hleft, hsome⟩ := h.left hsecs hplace
      obtain ⟨hwaits, hsignals⟩ := met_sleep left n l
      refine ⟨[], [n], by simpa using hwaits, hsignals, fun script => ?_⟩
      exact (resume_sleep hplace hcomplaint hleft hsome n script).symm

theorem leads_receive (hplace : l.place = .waiting) (hparent : l.handle = .parent pid)
    (r : WaitReply) : l.Leads name secs (l.receive name pid r) := by
  obtain ⟨hwaits, hsignals⟩ := met_receive name pid r l
  refine ⟨[r], [], hwaits, by simpa using hsignals, fun script => ?_⟩
  exact (resume_receive hplace hparent r script).symm

section Runs

variable {argv : List Bytes} {operand : Bytes}

/-- Right after the fork a process has the whole run before it. -/
theorem resume_start (hone : argv.tail = [operand]) {script : Script} {reply : Pid}
    (hfork : script.nextFork.1 = .returned reply) :
    (start (if reply = 0 then .child else .parent reply)).resume (programName argv)
        (Operand.leadingInt (Utf8.lossy operand)) script.nextFork.2 = some (run argv script) := by
  rw [run_operand _ hone, fromFork_returned _ _ _ hfork]
  exact congrArg some (afterFork_eq _ _ _ [⟨.fork, 0⟩] _).symm

/-- Whether a process that was left `reply` by its fork is a run of the program that leaves
`r`, and has slept for the seconds that it should. -/
structure IsRun (argv : List Bytes) (secs : Int) (reply : Pid) (r : Record) (l : Life) : Prop where
  /-- The program leaves `r` on every system that returns `reply` to its fork and then has ready
  what the process met. -/
  run : ∀ script : Script, script.nextFork.1 = .returned reply →
    ForkProgram.run argv (script.before l.waits l.signals) = r
  /-- All its calls are the fork, then a sleep that lasts so long with the signals that the
  process met, and then, on the side of the parent, waits for the child. -/
  slept : ∃ (requests : List Duration) (waits : Nat), (waits = 0 ↔ reply = 0) ∧
    r.calls.map (·.request) = .fork ::
      (requests.map (fun d => .sleep d.secs d.nanos) ++ List.replicate waits (.waitpid reply)) ∧
    (asleep l.signals requests : Int) = max secs 0 * 10 ^ 9

/-- A process that has come from the fork to its end is a run. -/
theorem Leads.isRun (hone : argv.tail = [operand]) {reply : Pid} {r : Record}
    (hleads : (start (if reply = 0 then .child else .parent reply)).Leads (programName argv)
      (Operand.leadingInt (Utf8.lossy operand)) l) (hr : l.record? = some r) :
    l.IsRun argv (Operand.leadingInt (Utf8.lossy operand)) reply r := by
  obtain ⟨waits, signals, hwaits, hsignals, hrun⟩ := hleads
  replace hwaits : l.waits = waits := hwaits
  replace hsignals : l.signals = signals := hsignals
  have hwhole : ∀ script : Script, script.nextFork.1 = .returned reply →
      ForkProgram.run argv (script.before l.waits l.signals) = r := by
    intro script hfork
    obtain ⟨hreply, hrest⟩ := script.nextFork_before waits signals
    have hstart := resume_start hone (hreply.trans hfork)
    rw [hrest, hrun, resume_of_finished hr] at hstart
    rw [hwaits, hsignals]
    exact (Option.some.inj hstart).symm
  refine ⟨hwhole, ?_⟩
  let script : Script := ⟨[.returned reply], [], []⟩
  have hfork : (script.before l.waits l.signals).nextFork.1 = .returned reply := rfl
  have hsleeps : (script.before l.waits l.signals).sleeps = l.signals := List.append_nil _
  obtain ⟨waits, hside, hcalls⟩ := requests_run hone hfork
  rw [hwhole script rfl, hsleeps] at hcalls
  exact ⟨_, waits, hside, hcalls, asleep_duration _ _⟩

end Runs

section Arrives

theorem ends_placeAfter (h : Handle) :
    placeAfter h = .waiting ∨ ∃ f, placeAfter h = .finished f := by
  cases h <;> simp [placeAfter]

/-- A process that sleeps can meet any signals, and is where the run on them is. -/
theorem Going.wakes (h : l.Going secs) (hsecs : secs.toNat ≤ Duration.longest) {left : Duration}
    (hplace : l.place = .sleeping left) (signals : List Nat) :
    ∃ l' later, Relation.ReflTransGen (Pair.Own secs) l l' ∧
      (l'.place = .waiting ∨ ∃ f, l'.place = .finished f) ∧
      ∀ name forks waits, l.resume name secs ⟨forks, waits, signals⟩ =
        l'.resume name secs ⟨forks, waits, later⟩ := by
  have hend {l : Life} {left : Duration} {n : Nat} (hn : left.secs ≤ n) :
      (l.sleep left n).place = .waiting ∨ ∃ f, (l.sleep left n).place = .finished f := by
    rw [place_sleep_of_late hn]
    exact ends_placeAfter _
  induction signals generalizing l left with
  | nil =>
      obtain ⟨hcomplaint, hleft, hsome⟩ := h.left hsecs hplace
      refine ⟨l.sleep left left.secs, [], .single (.sleep l left _ hplace), hend (Nat.le_refl _),
        fun name forks waits => ?_⟩
      rw [resume_sleep hplace hcomplaint hleft hsome]
      simp only [resume, hplace, fromSleep_of_no_signal hleft hsome]
      rfl
  | cons n signals ih =>
      obtain ⟨hcomplaint, hleft, hsome⟩ := h.left hsecs hplace
      have hown : Pair.Own secs l (l.sleep left n) := .sleep l left n hplace
      have hresume (name : Text) (forks : List ForkReply) (waits : List WaitReply) :
          l.resume name secs ⟨forks, waits, n :: signals⟩ =
            (l.sleep left n).resume name secs ⟨forks, waits, signals⟩ :=
        (resume_sleep hplace hcomplaint hleft hsome n ⟨forks, waits, signals⟩).symm
      rcases Nat.lt_or_ge n left.secs with hn | hn
      · obtain ⟨l', later, hmoves, hl', hrest⟩ :=
          ih (h.own hown).1 (place_sleep_of_lt hn l)
        exact ⟨l', later, .head hown hmoves, hl', fun name forks waits =>
          (hresume name forks waits).trans (hrest name forks waits)⟩
      · exact ⟨l.sleep left n, signals, .single hown, hend hn, hresume⟩

/-- **A process that is not killed comes to the end of its sleep**, on any signals. -/
theorem Going.arrives (h : l.Going secs) (hsecs : secs.toNat ≤ Duration.longest)
    (halive : ∀ s, l.place ≠ .killed s) (signals : List Nat) :
    ∃ l' later, Relation.ReflTransGen (Pair.Own secs) l l' ∧
      (l'.place = .waiting ∨ ∃ f, l'.place = .finished f) ∧
      ∀ name forks waits, l.resume name secs ⟨forks, waits, signals⟩ =
        l'.resume name secs ⟨forks, waits, later⟩ := by
  cases hplace : l.place with
  | printing =>
      have hown : Pair.Own secs l (l.print secs) := .print l hplace
      have hcomplaint : l.complaint = [] := by
        have hgoing := h
        simp only [Going, hplace] at hgoing
        exact hgoing.2
      have hresume (name : Text) (script : Script) :
          l.resume name secs script = (l.print secs).resume name secs script :=
        (resume_print hplace hcomplaint script).symm
      rcases (place_own hown).2 with ⟨left, hleft⟩ | hend
      · obtain ⟨l', later, hmoves, hl', hrest⟩ := (h.own hown).1.wakes hsecs hleft signals
        exact ⟨l', later, .head hown hmoves, hl', fun name forks waits =>
          (hresume name _).trans (hrest name forks waits)⟩
      · exact ⟨l.print secs, signals, .single hown, by rw [hend]; exact ends_placeAfter _,
          fun name forks waits => hresume name _⟩
  | sleeping left => exact h.wakes hsecs hplace signals
  | waiting => exact ⟨l, signals, .refl, .inl hplace, fun _ _ _ => rfl⟩
  | finished f => exact ⟨l, signals, .refl, .inr ⟨f, hplace⟩, fun _ _ _ => rfl⟩
  | killed s => exact absurd hplace (halive s)

end Arrives

end Life

end ForkProgram

end Offspring
