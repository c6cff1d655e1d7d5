import Offspring.Proofs.Process.Sleep
import Offspring.Proofs.Process.Steps
import Offspring.Proofs.Process.Wait
import Offspring.Proofs.System.Script
/-!
# Handles and the replies of a script

A step of a process can be told from the replies to its calls alone: `Follows` says for each
kind of step which calls it makes, which answers they may get, what it then says and what
becomes of the table of handles.  Every step goes like that (`follows_step`), so the calls of
a run and their replies fall into one row for each step (`rows_run`), and the table holds the
forks that succeeded, in order, and nothing else (`run_handles`).
-/

namespace Offspring

/-- Calls of a wait for `target` with their replies, and how it ends: idle replies, and then
one that decides. -/
inductive Waits (target : Pid) : List Exchange → WaitEnd → Prop
  | decided {r : WaitReply} {e : WaitEnd} (h : r.judge target = .ends e) :
      Waits target [⟨.waitpid target, .wait r⟩] e
  | idle {r : WaitReply} {e : WaitEnd} {xs : List Exchange} (h : r.isIdle = true)
      (rest : Waits target xs e) : Waits target (⟨.waitpid target, .wait r⟩ :: xs) e

/-- The call for what is left of a sleep. -/
def Duration.request (d : Duration) : Request :=
  .sleep d.asked.secs d.asked.nanos

/-- Calls of a sleep with the signals that come. -/
inductive Sleeps : Duration → List Exchange → Prop
  | none {d : Duration} (h : d.isZero = true) : Sleeps d []
  /-- A signal comes in time, and what is left is asked for. -/
  | interrupted {d : Duration} {n : Nat} {xs : List Exchange} (h : d.isZero = false)
      (hn : n < d.asked.secs) (rest : Sleeps (d.after n) xs) :
      Sleeps d (⟨d.request, .sleep (some n)⟩ :: xs)
  /-- The call runs to its end. -/
  | whole {d : Duration} {signal? : Option Nat} {xs : List Exchange} (h : d.isZero = false)
      (hn : ∀ n ∈ signal?, d.asked.secs ≤ n) (rest : Sleeps d.rest xs) :
      Sleeps d (⟨d.request, .sleep signal?⟩ :: xs)

/-- A step with the handles before it, its calls with their replies, what it says, and the
handles after it. -/
inductive Follows (handles : List Handle) : Step → List Exchange → Answer → List Handle → Prop
  | print (t : Text) : Follows handles (.print t) [] .done handles
  | forked {r : ForkReply} {h : Handle} (hr : r.handle = .ok h) :
      Follows handles .fork [⟨.fork, .fork r⟩] (.forked handles.length h) (handles ++ [h])
  | forkFailed {r : ForkReply} {e : OsError} (hr : r.handle = .error e) :
      Follows handles .fork [⟨.fork, .fork r⟩] (.forkFailed e) handles
  | wait {k : Nat} {pid : Pid} {xs : List Exchange} {e : WaitEnd}
      (hk : handles[k]? = some (.parent pid)) (hw : Waits pid xs e) :
      Follows handles (.wait k) xs (.waited e) handles
  | noChildHandle {k : Nat} (hk : ∀ pid, handles[k]? ≠ some (.parent pid)) :
      Follows handles (.wait k) [] .noChildHandle handles
  | waitPid {pid : Pid} {xs : List Exchange} {e : WaitEnd} (hw : Waits pid xs e) :
      Follows handles (.waitPid pid) xs (.waited e) handles
  | sleep {d : Duration} {xs : List Exchange} (hs : Sleeps d xs) :
      Follows handles (.sleep d) xs .done handles

/-- The pid that a successful fork returned. -/
def ForkReply.pid? : ForkReply → Option Pid
  | .returned pid => some pid
  | .failed _ => none

/-- The handle of a successful fork, given what it returned. -/
def Handle.ofPid (pid : Pid) : Handle :=
  if pid = 0 then .child else .parent pid

/-- A handle tells the side of its fork in four ways, and the child's pid. -/
theorem Handle.ofPid_side (n : Pid) :
    ((ofPid n).isParent = true ↔ n ≠ 0) ∧ ((ofPid n).role = .main ↔ n ≠ 0) ∧
      ((ofPid n).role.label = "Main Process".toList ↔ n ≠ 0) ∧
      ((ofPid n).child? ≠ none ↔ n ≠ 0) ∧ (n ≠ 0 → (ofPid n).child? = some n) := by
  have hlabel : Role.child.label ≠ "Main Process".toList := by decide
  unfold ofPid
  by_cases hn : n = 0
  · rw [if_pos hn]
    exact ⟨by simp [isParent, hn], by simp [role, hn], by simpa [role, hn] using hlabel,
      by simp [child?, hn], fun h => absurd hn h⟩
  · rw [if_neg hn]
    exact ⟨by simp [isParent, hn], by simp [role, hn], iff_of_true rfl hn,
      by simp [child?, hn], fun _ => rfl⟩

theorem Handle.of_ofPid_eq_parent {n pid : Pid} (h : ofPid n = .parent pid) :
    n ≠ 0 ∧ n = pid := by
  unfold ofPid at h
  by_cases hn : n = 0
  · rw [if_pos hn] at h
    cases h
  · rw [if_neg hn] at h
    cases h
    exact ⟨hn, rfl⟩

/-- The calls of a wait. -/
theorem waits_waitOn (target : Pid) (forks : List ForkReply) (sleeps : List Nat)
    (rs : List WaitReply) :
    let requests := List.replicate (waitOn target rs).2.1 (Request.waitpid target)
    Waits target (Script.exchanges ⟨forks, rs, sleeps⟩ requests) (waitOn target rs).1 ∧
      Script.after ⟨forks, rs, sleeps⟩ requests = ⟨forks, (waitOn target rs).2.2, sleeps⟩ := by
  induction rs with
  | nil => exact ⟨.decided rfl, rfl⟩
  | cons r rs ih =>
      cases hr : r.judge target with
      | ends e =>
          simp only [waitOn, hr]
          exact ⟨.decided hr, rfl⟩
      | again =>
          simp only [waitOn, hr, List.replicate_succ]
          exact ⟨.idle ((r.judge_eq_again_iff target).mp hr) ih.1, ih.2⟩

/-- The calls of a sleep that no signal comes into. -/
theorem sleeps_requests (d : Duration) (forks : List ForkReply) (waits : List WaitReply) :
    let requests := d.requests.map fun r => Request.sleep r.secs r.nanos
    Sleeps d (Script.exchanges ⟨forks, waits, []⟩ requests) ∧
      Script.after ⟨forks, waits, []⟩ requests = ⟨forks, waits, []⟩ := by
  induction d using Duration.requests.induct with
  | case1 d hle hzero =>
      rw [Duration.requests, if_pos hle, if_pos hzero]
      exact ⟨.none hzero, rfl⟩
  | case2 d hle hzero =>
      have hrest := Duration.isZero_rest hle
      rw [Duration.requests, if_pos hle, if_neg hzero]
      have hasked := Duration.asked_of_le hle
      have hrequest : Request.sleep d.secs d.nanos = d.request := by
        rw [Duration.request, hasked]
      simp only [List.map_cons, List.map_nil, hrequest]
      exact ⟨.whole (by simpa using hzero) (by simp) (.none hrest), rfl⟩
  | case3 d hle ih =>
      rw [Duration.requests, if_neg hle]
      have hzero : d.isZero = false := by
        have hne : d.secs ≠ 0 := by
          intro hsecs
          rw [hsecs] at hle
          exact hle (Nat.zero_le _)
        simp [Duration.isZero, hne]
      obtain ⟨hsleeps, hafter⟩ := ih
      generalize d.rest.requests = later at hsleeps hafter ⊢
      simp only [List.map_cons, Script.exchanges, Script.after, Script.serve, List.head?_nil,
        List.tail_nil]
      exact ⟨.whole hzero (by simp) hsleeps, hafter⟩

/-- The calls of a sleep. -/
theorem sleeps_sleepOn (d : Duration) (forks : List ForkReply) (waits : List WaitReply)
    (ns : List Nat) :
    let requests := (sleepOn d ns).1.map fun r => Request.sleep r.secs r.nanos
    Sleeps d (Script.exchanges ⟨forks, waits, ns⟩ requests) ∧
      Script.after ⟨forks, waits, ns⟩ requests = ⟨forks, waits, (sleepOn d ns).2⟩ := by
  induction ns generalizing d with
  | nil => exact sleeps_requests d forks waits
  | cons n ns ih =>
      rw [sleepOn]
      by_cases hzero : d.isZero = true
      · rw [if_pos hzero]
        exact ⟨.none hzero, rfl⟩
      · rw [if_neg hzero]
        have hsome : d.isZero = false := by simpa using hzero
        by_cases hn : n < d.asked.secs
        · simp only [if_pos hn]
          exact ⟨.interrupted hsome hn (ih (d.after n)).1, (ih (d.after n)).2⟩
        · simp only [if_neg hn]
          have hend : ∀ m ∈ some n, d.asked.secs ≤ m := by
            rintro m ⟨⟩
            exact Nat.le_of_not_lt hn
          exact ⟨.whole hsome hend (ih d.rest).1, (ih d.rest).2⟩

namespace Scripted

variable {p : Scripted}

/-- The requests of some calls. -/
def requestsOf (calls : List Call) : List Request :=
  calls.map Call.request

/-- The calls of a wait for a pid, with what it says and leaves. -/
theorem waits_waitFor (p : Scripted) (pid : Pid) :
    let requests := requestsOf (p.waitFor pid).2.1
    ∃ e, (p.waitFor pid).1 = .waited e ∧ Waits pid (p.system.script.exchanges requests) e ∧
      p.system.script.after requests = (p.waitFor pid).2.2.system.script := by
  obtain ⟨hwaits, hafter⟩ := waits_waitOn pid p.system.script.forks p.system.script.sleeps
    p.system.script.waits
  have hrequests : requestsOf (p.waitFor pid).2.1 =
      List.replicate (waitOn pid p.system.script.waits).2.1 (.waitpid pid) := by
    simp [waitFor, System.waitPid, requestsOf, System.call]
  rw [hrequests]
  exact ⟨_, rfl, hwaits, hafter⟩

/-- A wait for a handle with a child is a wait for that child. -/
theorem step_wait_parent {k : Nat} {pid : Pid} (hk : p.handles[k]? = some (.parent pid)) :
    p.step (.wait k) = p.waitFor pid := by
  simp only [step, hk]

/-- A wait for any other handle, or for none, does nothing. -/
theorem step_wait_none {k : Nat} (hk : ∀ pid, p.handles[k]? ≠ some (.parent pid)) :
    p.step (.wait k) = (.noChildHandle, [], p) := by
  rw [step]
  split
  · next pid h => exact absurd h (hk pid)
  · rfl

/-- **A step is told by the replies to its calls.** -/
theorem follows_step (p : Scripted) (s : Step) :
    let requests := requestsOf (p.step s).2.1
    Follows p.handles s (p.system.script.exchanges requests) (p.step s).1 (p.step s).2.2.handles ∧
      p.system.script.after requests = (p.step s).2.2.system.script := by
  cases s with
  | print t => exact ⟨.print t, rfl⟩
  | fork =>
      have hnext : p.system.flush.script.nextFork =
          (p.system.script.forks.headD (.failed Errno.noSuchCall),
            (p.system.script.serve .fork).2) := by
        obtain ⟨⟨⟨forks, waits, sleeps⟩, out⟩, handles⟩ := p
        cases forks <;> rfl
      cases hr : (p.system.script.forks.headD (.failed Errno.noSuchCall)).handle with
      | ok h =>
          simp only [step, System.fork, hnext, hr]
          exact ⟨.forked hr, rfl⟩
      | error e =>
          simp only [step, System.fork, hnext, hr]
          exact ⟨.forkFailed hr, rfl⟩
  | wait k =>
      by_cases hk : ∃ pid, p.handles[k]? = some (.parent pid)
      · obtain ⟨pid, hk⟩ := hk
        obtain ⟨e, hanswer, hwaits, hafter⟩ := p.waits_waitFor pid
        rw [step_wait_parent hk, hanswer]
        exact ⟨.wait hk hwaits, hafter⟩
      · have hnone : ∀ pid, p.handles[k]? ≠ some (.parent pid) := fun pid h => hk ⟨pid, h⟩
        rw [step_wait_none hnone]
        exact ⟨.noChildHandle hnone, rfl⟩
  | waitPid pid =>
      obtain ⟨e, hanswer, hwaits, hafter⟩ := p.waits_waitFor pid
      have hstep : p.step (.waitPid pid) = p.waitFor pid := rfl
      rw [hstep, hanswer]
      exact ⟨.waitPid hwaits, hafter⟩
  | sleep d =>
      obtain ⟨hsleeps, hafter⟩ := sleeps_sleepOn d p.system.script.forks p.system.script.waits
        p.system.script.sleeps
      have hrequests : requestsOf (p.step (.sleep d)).2.1 =
          (sleepOn d p.system.script.sleeps).1.map fun r => .sleep r.secs r.nanos := by
        simp [step, System.sleep, requestsOf, System.call]
      rw [hrequests]
      exact ⟨.sleep hsleeps, hafter⟩

end Scripted

section Follows

variable {handles later : List Handle} {s : Step} {xs : List Exchange} {a : Answer}

/-- The replies to the forks among some calls. -/
def forksOf (xs : List Exchange) : List ForkReply :=
  xs.filterMap Exchange.fork?

theorem forksOf_append (xs ys : List Exchange) : forksOf (xs ++ ys) = forksOf xs ++ forksOf ys :=
  List.filterMap_append

theorem Waits.forksOf {target : Pid} {e : WaitEnd} (h : Waits target xs e) :
    forksOf xs = [] := by
  induction h with
  | decided => rfl
  | idle _ _ ih => exact ih

theorem Sleeps.forksOf {d : Duration} (h : Sleeps d xs) : forksOf xs = [] := by
  induction h with
  | none => rfl
  | interrupted _ _ _ ih => exact ih
  | whole _ _ _ ih => exact ih

/-- A wait makes at least one call, and all for its process. -/
theorem Waits.request {target : Pid} {e : WaitEnd} (h : Waits target xs e) :
    ∀ x ∈ xs, x.request = .waitpid target := by
  induction h with
  | decided => simp
  | idle _ _ ih => simpa using ih

/-- The handles of the forks that succeeded. -/
def handlesOf (forks : List ForkReply) : List Handle :=
  (forks.filterMap ForkReply.pid?).map Handle.ofPid

theorem handlesOf_append (forks forks' : List ForkReply) :
    handlesOf (forks ++ forks') = handlesOf forks ++ handlesOf forks' := by
  simp [handlesOf]

/-- A step makes one fork if it is a fork and none if it is not, and adds the handle of a
successful one. -/
theorem Follows.handles_eq (h : Follows handles s xs a later) :
    later = handles ++ handlesOf (forksOf xs) ∧ (forksOf xs).length = [s].count .fork := by
  have hsame : ∀ {s : Step}, s ≠ .fork → forksOf xs = [] →
      handles = handles ++ handlesOf (forksOf xs) ∧ (forksOf xs).length = [s].count .fork := by
    intro s hs hxs
    simp [hxs, handlesOf, hs]
  cases h with
  | print t => exact hsame nofun rfl
  | @forked r h hr =>
      cases r with
      | returned pid =>
          cases hr
          exact ⟨rfl, rfl⟩
      | failed errno => cases hr
  | @forkFailed r e hr =>
      cases r with
      | returned pid => cases hr
      | failed errno => exact ⟨(List.append_nil _).symm, rfl⟩
  | wait _ hw => exact hsame nofun hw.forksOf
  | noChildHandle => exact hsame nofun rfl
  | waitPid hw => exact hsame nofun hw.forksOf
  | sleep hs => exact hsame nofun hs.forksOf

theorem Follows.request_fork (h : Follows handles .fork xs a later) :
    xs.map Exchange.request = [.fork] := by
  cases h <;> rfl

/-- A wait is for the child of its handle, or makes no call. -/
theorem Follows.wait_cases {k : Nat} (h : Follows handles (.wait k) xs a later) :
    (∃ pid e, handles[k]? = some (.parent pid) ∧ Waits pid xs e ∧ a = .waited e) ∨
      ((∀ pid, handles[k]? ≠ some (.parent pid)) ∧ xs = [] ∧ a = .noChildHandle) := by
  cases h with
  | wait hk hw => exact .inl ⟨_, _, hk, hw, rfl⟩
  | noChildHandle hk => exact .inr ⟨hk, rfl, rfl⟩

theorem Follows.of_noChildHandle (h : Follows handles s xs .noChildHandle later) :
    ∃ k, s = .wait k ∧ ∀ pid, handles[k]? ≠ some (.parent pid) := by
  cases h with
  | noChildHandle hk => exact ⟨_, rfl, hk⟩

/-- Only a fork that succeeds changes the table. -/
theorem Follows.handles_of_not_forked (h : Follows handles s xs a later)
    (ha : ∀ place h, a ≠ .forked place h) : later = handles := by
  cases h with
  | forked => exact absurd rfl (ha _ _)
  | _ => rfl

end Follows

namespace Scripted

/-- The calls of a run with the replies they get. -/
def exchanges (p : Scripted) (steps : List Step) : List Exchange :=
  p.system.script.exchanges (requestsOf (callsOf (p.run steps).1))

theorem exchanges_cons (p : Scripted) (s : Step) (steps : List Step) :
    p.exchanges (s :: steps) =
      p.system.script.exchanges (requestsOf (p.step s).2.1) ++ (p.step s).2.2.exchanges steps := by
  have hrequests : requestsOf (callsOf (p.run (s :: steps)).1) =
      requestsOf (p.step s).2.1 ++ requestsOf (callsOf ((p.step s).2.2.run steps).1) := by
    simp [run_cons, callsOf, requestsOf]
  rw [exchanges, hrequests, Script.exchanges_append, (p.follows_step s).2]
  rfl

/-- **The rows of a run.**  The calls of a run with their replies fall into one row for each
step, and each step is told by its row. -/
theorem rows_run (p : Scripted) (steps : List Step) :
    ∃ rows : List (List Exchange), rows.flatten = p.exchanges steps ∧
      rows.length = steps.length ∧
      ∀ k s answer calls, steps[k]? = some s → (p.run steps).1[k]? = some (answer, calls) →
        ∃ row, rows[k]? = some row ∧ row.map Exchange.request = requestsOf calls ∧
          Follows (p.run (steps.take k)).2.handles s row answer
            (p.run (steps.take (k + 1))).2.handles := by
  induction steps generalizing p with
  | nil => exact ⟨[], rfl, rfl, nofun⟩
  | cons s steps ih =>
      obtain ⟨rows, hflatten, hlength, hrows⟩ := ih (p.step s).2.2
      refine ⟨p.system.script.exchanges (requestsOf (p.step s).2.1) :: rows, ?_, ?_, ?_⟩
      · rw [List.flatten_cons, hflatten, exchanges_cons]
      · rw [List.length_cons, hlength, List.length_cons]
      · intro k s' answer calls hs hanswer
        cases k with
        | zero =>
            cases hs
            cases hanswer
            exact ⟨_, rfl, Script.request_exchanges _ _, (p.follows_step s).1⟩
        | succ k => exact hrows k s' answer calls hs hanswer

/-- The table after a run has the handles of the forks that succeeded, after those before. -/
theorem handles_run (p : Scripted) (steps : List Step) :
    (p.run steps).2.handles = p.handles ++ handlesOf (forksOf (p.exchanges steps)) ∧
      (forksOf (p.exchanges steps)).length = steps.count .fork ∧
      (p.run steps).2.system.script =
        p.system.script.after (requestsOf (callsOf (p.run steps).1)) := by
  induction steps generalizing p with
  | nil => exact ⟨(List.append_nil _).symm, rfl, rfl⟩
  | cons s steps ih =>
      obtain ⟨hhandles, hcount, hscript⟩ := ih (p.step s).2.2
      obtain ⟨hfollows, hafter⟩ := p.follows_step s
      obtain ⟨hstep, hone⟩ := hfollows.handles_eq
      have hrun : (p.run (s :: steps)).2 = ((p.step s).2.2.run steps).2 := rfl
      rw [hrun, exchanges_cons, forksOf_append]
      refine ⟨?_, ?_, ?_⟩
      · rw [hhandles, hstep, handlesOf_append, List.append_assoc]
      · rw [List.length_append, hone, hcount, ← List.count_append]
        rfl
      · rw [hscript, ← hafter, ← Script.after_append]
        simp [run_cons, callsOf, requestsOf]

/-- One step of a run, taken by the process that the steps before it leave. -/
theorem step_run (p : Scripted) {steps : List Step} {k : Nat} {s : Step} {answer : Answer}
    {calls : List Call} (hs : steps[k]? = some s) (h : (p.run steps).1[k]? = some (answer, calls)) :
    (p.run (steps.take k)).2.step s = (answer, calls, (p.run (steps.take (k + 1))).2) := by
  induction steps generalizing p k with
  | nil => cases hs
  | cons s' steps ih =>
      cases k with
      | zero =>
          cases hs
          cases h
          rfl
      | succ k => exact ih (p.step s').2.2 hs h

/-- The table before a step of a run is the head of the table after the run. -/
theorem handles_take (p : Scripted) (steps : List Step) (k : Nat) {j : Nat} {h : Handle}
    (hj : (p.run (steps.take k)).2.handles[j]? = some h) :
    (p.run steps).2.handles[j]? = some h := by
  have hsplit := run_append p (steps.take k) (steps.drop k)
  have hlt := (List.getElem?_eq_some_iff.mp hj).1
  rw [List.take_append_drop] at hsplit
  rw [hsplit, ((p.run (steps.take k)).2.handles_run (steps.drop k)).1,
    List.getElem?_append_left hlt, hj]

/-- **The law of handles.**  Take any steps on any system, and let `pids` be what the forks
that succeeded returned, in order.  The table then has the handles of `pids`, and each of
them tells the side of its fork, and the child's pid, by what the fork returned.  The calls of
the run get the entries of each list of the script in order, each entry once and after the
last one only the default, and leave the later entries; a fork is called once for each fork
step.  These calls with their replies fall into one row for each step, by which the step is
told.  A wait for a handle of the table is for the pid that its fork returned, and a wait for
a handle without a child, or for none, makes no call and changes nothing.  Whatever else a
step says, the table stays as it was unless a fork succeeded. -/
theorem run_handles (script : Script) (steps : List Step) :
    let ran := (start script).run steps
    let xs := script.exchanges ((callsOf ran.1).map Call.request)
    let forks := xs.filterMap Exchange.fork?
    let waits := xs.filterMap Exchange.wait?
    let sleeps := xs.filterMap Exchange.sleep?
    let pids := (script.forks.take (steps.count .fork)).filterMap ForkReply.pid?
    ran.2.handles = pids.map Handle.ofPid ∧
    (∀ n, let h := Handle.ofPid n
      (h.isParent = true ↔ n ≠ 0) ∧ (h.role = .main ↔ n ≠ 0) ∧
      (h.role.label = "Main Process".toList ↔ n ≠ 0) ∧ (h.child? ≠ none ↔ n ≠ 0) ∧
      (n ≠ 0 → h.child? = some n)) ∧
    forks.length = steps.count .fork ∧
    forks = supply script.forks (.failed Errno.noSuchCall) forks.length ∧
    waits = supply script.waits (.failed Errno.noChild) waits.length ∧
    sleeps = supply (script.sleeps.map some) none sleeps.length ∧
    ran.2.system.script = ⟨script.forks.drop forks.length, script.waits.drop waits.length,
      script.sleeps.drop sleeps.length⟩ ∧
    ran.1.length = steps.length ∧
    ∃ rows : List (List Exchange), rows.flatten = xs ∧ rows.length = steps.length ∧
      ∀ k s answer calls, steps[k]? = some s → ran.1[k]? = some (answer, calls) →
        let before := ((start script).run (steps.take k)).2
        let after := ((start script).run (steps.take (k + 1))).2
        (∃ row, rows[k]? = some row ∧ row.map Exchange.request = calls.map Call.request ∧
          Follows before.handles s row answer after.handles) ∧
        (s = .fork → calls.map Call.request = [.fork]) ∧
        (∀ j, s = .wait j →
          (∀ c ∈ calls, ∃ n, pids[j]? = some n ∧ n ≠ 0 ∧ c.request = .waitpid n) ∧
          (answer = .noChildHandle ↔ ∀ pid, before.handles[j]? ≠ some (.parent pid))) ∧
        (answer = .noChildHandle → calls = [] ∧ after = before) ∧
        ((∀ place h, answer ≠ .forked place h) → after.handles = before.handles) := by
  intro ran xs forks waits sleeps pids
  obtain ⟨hhandles, hcount, hscript⟩ := (start script).handles_run steps
  obtain ⟨hforks, hwaits, hsleeps, hafter⟩ := script.exchanges_supply (requestsOf (callsOf ran.1))
  obtain ⟨rows, hflatten, hlength, hrows⟩ := (start script).rows_run steps
  have htable : ran.2.handles = pids.map Handle.ofPid := by
    have hsupply : forks = supply script.forks (.failed Errno.noSuchCall) (steps.count .fork) := by
      rw [← hcount]
      exact hforks
    have hpids : forks.filterMap ForkReply.pid? = pids := by
      rw [hsupply, supply, List.filterMap_append, List.filterMap_replicate_of_none rfl,
        List.append_nil]
    rw [hhandles, ← hpids]
    rfl
  refine ⟨htable, Handle.ofPid_side, hcount, hforks, hwaits, hsleeps, hscript.trans hafter,
    length_run _ _, rows, hflatten, hlength, fun k s answer calls hs hanswer => ?_⟩
  intro before after
  obtain ⟨row, hrow, hrequests, hfollows⟩ := hrows k s answer calls hs hanswer
  have hstep : before.step s = (answer, calls, after) := (start script).step_run hs hanswer
  refine ⟨⟨row, hrow, hrequests, hfollows⟩, ?_, ?_, ?_, hfollows.handles_of_not_forked⟩
  · rintro rfl
    exact hrequests.symm.trans hfollows.request_fork
  · rintro j rfl
    rcases hfollows.wait_cases with ⟨pid, e, hk, hw, rfl⟩ | ⟨hk, hxs, rfl⟩
    · refine ⟨fun c hc => ?_, iff_of_false (by simp) fun hnone => hnone pid hk⟩
      have hmem : c.request ∈ row.map Exchange.request := by
        rw [hrequests]
        exact List.mem_map_of_mem hc
      obtain ⟨x, hx, hxc⟩ := List.mem_map.mp hmem
      have hhandle : (pids.map Handle.ofPid)[j]? = some (.parent pid) := by
        rw [← htable]
        exact (start script).handles_take steps k hk
      rw [List.getElem?_map, Option.map_eq_some_iff] at hhandle
      obtain ⟨n, hn, hpid⟩ := hhandle
      obtain ⟨hne, rfl⟩ := Handle.of_ofPid_eq_parent hpid
      exact ⟨n, hn, hne, hxc.symm.trans (hw.request x hx)⟩
    · refine ⟨?_, iff_of_true rfl hk⟩
      rw [hxs] at hrequests
      have hnone : calls = [] := List.map_eq_nil_iff.mp hrequests.symm
      rw [hnone]
      exact fun c hc => absurd hc List.not_mem_nil
  · rintro rfl
    obtain ⟨j, rfl, hk⟩ := hfollows.of_noChildHandle
    rw [step_wait_none hk, Prod.mk.injEq, Prod.mk.injEq] at hstep
    exact ⟨hstep.2.1.symm, hstep.2.2.symm⟩

end Scripted

end Offspring
