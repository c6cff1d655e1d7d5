import Mathlib.Data.List.Induction
import Mathlib.Data.List.Pairwise
import Offspring.Process.Twins
import Offspring.Proofs.System.Stdout
/-!
# What processes of steps write

A call is made with what the process has written by then, and `Stdout.Tracks` tells how much
that is.  A step keeps it (`tracks_step`) and so does a run (`tracks_run`), so every call of
a run is covered (`run_writes`).  A fork leaves nothing pending, and after it the two
processes write each its own texts, once and in order (`Twins.whole_run`).
-/

namespace Offspring

/-- What a step prints. -/
def Step.text : Step → Text
  | .print t => t
  | _ => []

/-- What some steps print. -/
def Step.texts (steps : List Step) : Text :=
  steps.flatMap Step.text

/-- How much had been written at the latest fork among some calls, and `n` if there is
none. -/
def writtenAtFork (n : Nat) (calls : List Call) : Nat :=
  calls.foldl (fun n c => if c.request = .fork then c.written else n) n

namespace Scripted

variable {p : Scripted} {t : Text} {forked : Nat}

theorem step_fork (p : Scripted) :
    (p.step .fork).2.1 = [⟨.fork, p.printed.size⟩] ∧
      (p.step .fork).2.2.system.out = p.system.out.flush := by
  simp only [step]
  cases (p.system.fork).result <;> exact ⟨rfl, rfl⟩

/-- A wait for a handle is one for its child, if it has one. -/
theorem step_wait (p : Scripted) (k : Nat) :
    (∃ pid, p.step (.wait k) = p.waitFor pid) ∨ p.step (.wait k) = (.noChildHandle, [], p) := by
  simp only [step]
  split
  · next pid _ => exact .inl ⟨pid, rfl⟩
  · exact .inr rfl

/-- What a step leaves of the output. -/
theorem out_step (p : Scripted) (s : Step) :
    (p.step s).2.2.system.out = match s with
      | .print t => p.system.out.print t
      | .fork => p.system.out.flush
      | _ => p.system.out := by
  cases s with
  | print | waitPid | sleep => rfl
  | fork => exact p.step_fork.2
  | wait k =>
      rcases p.step_wait k with ⟨pid, h⟩ | h
      · rw [h]
        rfl
      · rw [h]

theorem written_prefix_step (p : Scripted) (s : Step) :
    p.system.out.written <+: (p.step s).2.2.system.out.written := by
  rw [out_step]
  cases s with
  | print t => exact p.system.out.written_prefix_print t
  | fork => exact List.prefix_append _ _
  | wait | waitPid | sleep => exact List.prefix_rfl

/-- A call other than a fork is made with what had been written before the step. -/
theorem calls_step (p : Scripted) {s : Step} (hs : s ≠ .fork) :
    ∀ c ∈ (p.step s).2.1, c.request ≠ .fork ∧ c.written = p.system.out.bytesWritten := by
  have hwait : ∀ pid, ∀ c ∈ (p.waitFor pid).2.1,
      c.request ≠ .fork ∧ c.written = p.system.out.bytesWritten := by
    intro pid c hc
    rw [List.eq_of_mem_replicate hc]
    exact ⟨nofun, rfl⟩
  intro c hc
  cases s with
  | fork => exact absurd rfl hs
  | print t => exact absurd hc List.not_mem_nil
  | waitPid pid => exact hwait pid c hc
  | wait k =>
      rcases p.step_wait k with ⟨pid, h⟩ | h
      · exact hwait pid c (h ▸ hc)
      · rw [h] at hc
        exact absurd hc List.not_mem_nil
  | sleep d =>
      obtain ⟨r, _, rfl⟩ := List.mem_map.mp hc
      exact ⟨nofun, rfl⟩

/-- A step keeps track of what has been written. -/
theorem tracks_step (h : p.system.out.Tracks t forked) (s : Step) :
    (p.step s).2.2.system.out.Tracks (t ++ s.text) (writtenAtFork forked (p.step s).2.1) := by
  by_cases hs : s = .fork
  · subst hs
    obtain ⟨hcalls, hout⟩ := p.step_fork
    have hsize : p.printed.size = t.size := congrArg Text.size h.printed
    rw [hcalls, hout]
    simpa [Step.text, writtenAtFork, hsize] using h.flush
  · have hforked : writtenAtFork forked (p.step s).2.1 = forked := by
      have hcalls := p.calls_step hs
      generalize (p.step s).2.1 = calls at hcalls
      induction calls with
      | nil => rfl
      | cons c calls ih =>
          have hc : c.request ≠ .fork := (hcalls c List.mem_cons_self).1
          rw [writtenAtFork, List.foldl_cons, if_neg hc]
          exact ih fun c hc => hcalls c (List.mem_cons_of_mem _ hc)
    rw [hforked, out_step]
    cases s with
    | print u => exact h.print u
    | fork => exact absurd rfl hs
    | wait | waitPid | sleep => simpa [Step.text] using h

/-- The calls that a run makes. -/
def callsOf (answers : List (Answer × List Call)) : List Call :=
  answers.flatMap Prod.snd

theorem run_append (p : Scripted) (before after : List Step) :
    p.run (before ++ after) =
      ((p.run before).1 ++ ((p.run before).2.run after).1, ((p.run before).2.run after).2) := by
  induction before generalizing p with
  | nil => rfl
  | cons s before ih => simp [run, ih]

theorem run_cons (p : Scripted) (s : Step) (steps : List Step) :
    p.run (s :: steps) =
      (((p.step s).1, (p.step s).2.1) :: ((p.step s).2.2.run steps).1,
        ((p.step s).2.2.run steps).2) := rfl

theorem length_run (p : Scripted) (steps : List Step) :
    (p.run steps).1.length = steps.length := by
  induction steps generalizing p with
  | nil => rfl
  | cons s steps ih => simp [run_cons, ih]

theorem tracks_run (h : p.system.out.Tracks t forked) (steps : List Step) :
    (p.run steps).2.system.out.Tracks (t ++ Step.texts steps)
      (writtenAtFork forked (callsOf (p.run steps).1)) := by
  induction steps generalizing p t forked with
  | nil => simpa [run, Step.texts, callsOf, writtenAtFork] using h
  | cons s steps ih =>
      have hstep := ih (tracks_step h s)
      rw [run_cons]
      simpa [Step.texts, callsOf, writtenAtFork, List.foldl_append] using hstep

/-- The calls of one step of a run, and the process before it. -/
theorem answer_run (p : Scripted) {steps : List Step} {k : Nat} {answer : Answer}
    {calls : List Call} (h : (p.run steps).1[k]? = some (answer, calls)) :
    ∃ s, (p.run steps).1.take k = (p.run (steps.take k)).1 ∧
      calls = ((p.run (steps.take k)).2.step s).2.1 := by
  have hk : k < steps.length := by
    rw [← length_run p steps]
    exact (List.getElem?_eq_some_iff.mp h).1
  have hlength : (p.run (steps.take k)).1.length = k := by
    rw [length_run, List.length_take]
    omega
  have hrun := run_append p (steps.take k) (steps.drop k)
  rw [List.take_append_drop, List.drop_eq_getElem_cons hk, run_cons] at hrun
  refine ⟨steps[k], ?_, ?_⟩
  · rw [hrun]
    exact List.take_left' hlength
  · rw [hrun, List.getElem?_append_right (by omega), hlength, Nat.sub_self] at h
    exact (congrArg Prod.snd (Option.some.inj h)).symm

/-- The calls of a step lie between what was written before it and what is after it. -/
theorem calls_between (p : Scripted) (s : Step) :
    p.system.out.bytesWritten ≤ (p.step s).2.2.system.out.bytesWritten ∧
      ∀ c ∈ (p.step s).2.1, p.system.out.bytesWritten ≤ c.written ∧
        c.written ≤ (p.step s).2.2.system.out.bytesWritten := by
  have hprinted : p.system.out.bytesWritten ≤ p.printed.size := by
    rw [printed, Stdout.printed, Text.size_append]
    exact Nat.le_add_right _ _
  have hgrows : p.system.out.bytesWritten ≤ (p.step s).2.2.system.out.bytesWritten := by
    obtain ⟨more, hmore⟩ := written_prefix_step p s
    rw [Stdout.bytesWritten, Stdout.bytesWritten, ← hmore, Text.size_append]
    exact Nat.le_add_right _ _
  refine ⟨hgrows, fun c hc => ?_⟩
  by_cases hs : s = .fork
  · subst hs
    obtain ⟨hcalls, hout⟩ := p.step_fork
    rw [hcalls, List.mem_singleton] at hc
    rw [hc, hout]
    exact ⟨hprinted, Nat.le_refl _⟩
  · rw [(p.calls_step hs c hc).2]
    exact ⟨Nat.le_refl _, hgrows⟩

/-- What has been written never decreases from call to call. -/
theorem calls_run_pairwise (p : Scripted) (steps : List Step) :
    (∀ c ∈ callsOf (p.run steps).1, p.system.out.bytesWritten ≤ c.written) ∧
      (callsOf (p.run steps).1).Pairwise (fun c d => c.written ≤ d.written) := by
  induction steps generalizing p with
  | nil => exact ⟨nofun, .nil⟩
  | cons s steps ih =>
      obtain ⟨hgrows, hbetween⟩ := p.calls_between s
      obtain ⟨hlater, hpairwise⟩ := ih (p.step s).2.2
      have hcalls : callsOf (p.run (s :: steps)).1 =
          (p.step s).2.1 ++ callsOf ((p.step s).2.2.run steps).1 := rfl
      rw [hcalls, List.pairwise_append]
      refine ⟨fun c hc => ?_, ?_, hpairwise, fun c hc d hd => ?_⟩
      · rcases List.mem_append.mp hc with hc | hc
        · exact (hbetween c hc).1
        · exact Nat.le_trans hgrows (hlater c hc)
      · -- a fork makes one call, and the calls of another step are all made with the same
        by_cases hs : s = .fork
        · rw [hs, p.step_fork.1]
          exact List.pairwise_singleton _ _
        · refine List.pairwise_of_forall_mem_list fun c hc d hd => ?_
          exact Nat.le_of_eq ((p.calls_step hs c hc).2.trans (p.calls_step hs d hd).2.symm)
      · exact Nat.le_trans (hbetween c hc).2 (hlater d hd)

/-- What a call of a step was made with, when so much had been printed. -/
theorem call_law (h : p.system.out.Tracks t forked) (s : Step) :
    ∀ c ∈ (p.step s).2.1,
      (c.request = .fork → c.written = t.size) ∧
      (c.request ≠ .fork →
        let m := max forked t.cutAfterNewline.1.size
        m ≤ c.written ∧ c.written ≤ t.size ∧ t.size ≤ c.written + Stdout.room ∧
          (t.size < m + Stdout.room → c.written = m)) := by
  intro c hc
  by_cases hs : s = .fork
  · subst hs
    rw [p.step_fork.1, List.mem_singleton] at hc
    subst hc
    exact ⟨fun _ => congrArg Text.size h.printed, fun hne => absurd rfl hne⟩
  · obtain ⟨hrequest, hwritten⟩ := p.calls_step hs c hc
    refine ⟨fun he => absurd he hrequest, fun _ => ?_⟩
    have hsize := h.size
    have hpending := h.pending_le
    intro m
    rw [hwritten]
    exact ⟨Nat.max_le.mpr ⟨h.forked_le, h.lines_le⟩, by omega, by omega, h.tight⟩

end Scripted

namespace Twins

/-- What one side has written, of all that is on the screen. -/
def writtenBy (r : Role) (screen : List (Role × Text)) : Text :=
  (screen.filter fun e => e.1 = r).flatMap Prod.snd

/-- What an act prints. -/
def textOf : Act → Text
  | .step s => s.text
  | .exit _ => []

/-- What one side prints in some acts. -/
def printedBy (r : Role) (acts : List (Role × Act)) : Text :=
  (acts.filter fun a => a.1 = r).flatMap fun a => textOf a.2

variable {t : Twins} {r : Role}

theorem act_printed (p : Scripted) (a : Act) : (p.act a).printed = p.printed ++ textOf a := by
  cases a with
  | exit status => simp [Scripted.act, Scripted.printed, Stdout.exit, textOf]
  | step s =>
      simp only [Scripted.act, Scripted.printed, Scripted.out_step, textOf]
      cases s <;> simp [Step.text]

theorem written_prefix_act (p : Scripted) (a : Act) :
    p.system.out.written <+: (p.act a).system.out.written := by
  cases a with
  | exit status => exact List.prefix_append _ _
  | step s => exact p.written_prefix_step s

/-- An act of one side changes that side, and adds to the screen what that side writes. -/
theorem act_cases (t : Twins) (r : Role) (a : Act) :
    ∃ new, ((t.process r).act a).system.out.written = (t.process r).system.out.written ++ new ∧
      (t.act r a).screen = t.screen ++ [(r, new)] ∧
      (t.act r a).process r = (t.process r).act a ∧
      ∀ r', r' ≠ r → (t.act r a).process r' = t.process r' := by
  obtain ⟨new, hnew⟩ := written_prefix_act (t.process r) a
  refine ⟨new, hnew.symm, ?_, ?_, ?_⟩
  · have hdrop : ((t.process r).act a).system.out.written.drop
        (t.process r).system.out.written.length = new := by
      rw [← hnew, List.drop_left]
    cases r <;> simp [act, put, hdrop]
  · cases r <;> rfl
  · intro r' hr
    cases r <;> cases r' <;> first | rfl | exact absurd rfl hr

/-- **Each side writes what it prints.**  What a side had written before and writes in its
acts, with what is pending, is what it had printed before and prints in its acts. -/
theorem whole_run (t : Twins) (acts : List (Role × Act)) (r : Role) :
    ∃ new, writtenBy r (t.run acts).screen = writtenBy r t.screen ++ new ∧
      (t.process r).system.out.written ++ new ++ ((t.run acts).process r).system.out.pending =
        (t.process r).printed ++ printedBy r acts := by
  induction acts generalizing t with
  | nil => exact ⟨[], by simp [run], by simp [run, printedBy, Scripted.printed, Stdout.printed]⟩
  | cons a acts ih =>
      obtain ⟨s, a⟩ := a
      obtain ⟨later, hscreen, hprinted⟩ := ih (t.act s a)
      obtain ⟨new, hnew, hadd, hsame, hother⟩ := t.act_cases s a
      have hrun : t.run ((s, a) :: acts) = (t.act s a).run acts := rfl
      by_cases hr : r = s
      · subst hr
        rw [hsame, act_printed, hnew] at hprinted
        refine ⟨new ++ later, ?_, ?_⟩
        · rw [hrun, hscreen, hadd]
          simp [writtenBy]
        · rw [hrun, ← List.append_assoc, hprinted]
          simp [printedBy]
      · rw [hother r hr] at hprinted
        have hne : ¬ s = r := fun h => hr h.symm
        refine ⟨later, ?_, ?_⟩
        · rw [hrun, hscreen, hadd]
          simp [writtenBy, hne]
        · rw [hrun, hprinted]
          simp [printedBy, hne]

/-- What was pending at the fork is written by the original, and by the copy not at all. -/
theorem whole_fork (p : Scripted) (main child : Script) (acts : List (Role × Act)) :
    let t := (fork p main child).run acts
    writtenBy .main t.screen ++ t.main.system.out.pending = p.printed ++ printedBy .main acts ∧
      writtenBy .child t.screen ++ t.child.system.out.pending = printedBy .child acts := by
  intro t
  have hside : ∀ r, ((fork p main child).process r).system.out = ⟨p.printed, []⟩ := by
    intro r
    cases r <;> exact (Scripted.step_fork _).2
  have hwritten : ∀ r, ((fork p main child).process r).system.out.written = p.printed := by
    intro r
    rw [hside]
  have hprinted : ∀ r, ((fork p main child).process r).printed = p.printed := by
    intro r
    rw [Scripted.printed, hside]
    exact List.append_nil _
  have hown : writtenBy .main (fork p main child).screen = p.printed := by
    have hmain : (forkOn p main).system.out.written = p.printed := hwritten .main
    simp [writtenBy, fork, hmain]
  have hcopy : writtenBy .child (fork p main child).screen = [] := by
    simp [writtenBy, fork]
  obtain ⟨byMain, hscreen, hmain⟩ := (fork p main child).whole_run acts .main
  obtain ⟨byChild, hscreen', hchild⟩ := (fork p main child).whole_run acts .child
  rw [hwritten, hprinted] at hmain hchild
  rw [hown] at hscreen
  rw [hcopy, List.nil_append] at hscreen'
  rw [List.append_assoc] at hchild
  refine ⟨?_, ?_⟩
  · rw [hscreen]
    exact hmain
  · rw [hscreen']
    exact List.append_cancel_left hchild

/-- A side whose last act was its exit has nothing pending. -/
theorem pending_of_exit (t : Twins) (acts : List (Role × Act)) {status : Int}
    (h : (acts.filter fun a => a.1 = r).getLast? = some (r, .exit status)) :
    ((t.run acts).process r).system.out.pending = [] := by
  induction acts using List.reverseRecOn with
  | nil => cases h
  | append_singleton acts a ih =>
      obtain ⟨s, a⟩ := a
      obtain ⟨_, _, _, hsame, hother⟩ := (t.run acts).act_cases s a
      have hrun : t.run (acts ++ [(s, a)]) = (t.run acts).act s a := by
        simp [run, List.foldl_append]
      by_cases hr : r = s
      · subst hr
        have hlast : a = .exit status := by simpa [List.filter_append] using h
        rw [hrun, hsame, hlast]
        rfl
      · have hne : ¬ s = r := fun he => hr he.symm
        rw [hrun, hother r hr]
        exact ih (by simpa [List.filter_append, hne] using h)

end Twins

namespace Scripted

/-- **What a process of steps writes.**  Take any steps on any system.  Every fork is called
with all written that was printed, whether it then fails or not.  Let `m` be what had been
written at the latest fork or what was printed up to the last newline, whichever is more:
every wait and every sleep is called with at least `m` bytes written, with no more than were
printed and no more than 1024 still to be written, and with just `m` if fewer than 1024 were
printed beyond that.  From call to call it never gets less.  In the end all the texts were
printed in order, and an exit writes them all.  When the process then forks, nothing is
pending on either side; each side writes what it prints, once and in order, the original
alone has written what was printed before, and a side that has exited has nothing pending. -/
theorem run_writes (script : Script) (steps : List Step) :
    let answers := ((start script).run steps).1
    let final := ((start script).run steps).2
    (∀ k answer calls, answers[k]? = some (answer, calls) →
      let printed := Step.texts (steps.take k)
      let m := max (writtenAtFork 0 (callsOf (answers.take k))) printed.cutAfterNewline.1.size
      ∀ c ∈ calls,
        (c.request = .fork → c.written = printed.size) ∧
        (c.request ≠ .fork →
          m ≤ c.written ∧ c.written ≤ printed.size ∧ printed.size ≤ c.written + 1024 ∧
            (printed.size < m + 1024 → c.written = m))) ∧
    (callsOf answers).Pairwise (fun c d => c.written ≤ d.written) ∧
    final.printed = Step.texts steps ∧
    (∀ status, (final.system.out.exit status).2 = ⟨Step.texts steps, []⟩) ∧
    ∀ main child,
      let twins := Twins.fork final main child
      twins.main.system.out.pending = [] ∧ twins.child.system.out.pending = [] ∧
      ∀ acts, let t := twins.run acts
        Twins.writtenBy .main t.screen ++ t.main.system.out.pending =
          Step.texts steps ++ Twins.printedBy .main acts ∧
        Twins.writtenBy .child t.screen ++ t.child.system.out.pending =
          Twins.printedBy .child acts ∧
        ∀ r status, (acts.filter fun a => a.1 = r).getLast? = some (r, .exit status) →
          (t.process r).system.out.pending = [] := by
  intro answers final
  have htracks := fun steps => tracks_run (p := start script) Stdout.tracks_empty steps
  have hprinted : final.printed = Step.texts steps := (htracks steps).printed
  refine ⟨fun k answer calls hk => ?_, (calls_run_pairwise _ steps).2, hprinted, fun status => ?_,
    fun main child => ⟨?_, ?_, fun acts => ?_⟩⟩
  · obtain ⟨s, htake, rfl⟩ := answer_run _ hk
    intro printed m
    have hlaw := call_law (htracks (steps.take k)) s
    rw [← htake] at hlaw
    exact hlaw
  · rw [← hprinted]
    rfl
  · exact congrArg Stdout.pending (step_fork _).2
  · exact congrArg Stdout.pending (step_fork _).2
  · obtain ⟨hmain, hchild⟩ := Twins.whole_fork final main child acts
    rw [hprinted] at hmain
    exact ⟨hmain, hchild, fun r status hlast => Twins.pending_of_exit _ acts hlast⟩

/-- Where the room of the output is used up, more is written than the lines and the forks
call for: here there is neither a newline nor a fork, and all 1024 bytes are written. -/
theorem run_writes_full_room :
    let steps : List Step := [.print (List.replicate 1024 'x'), .sleep ⟨1, 0⟩]
    let answers := ((start ⟨[], [], []⟩).run steps).1
    answers[1]? = some (.done, [⟨.sleep 1 0, 1024⟩]) ∧
      max (writtenAtFork 0 (callsOf (answers.take 1)))
        (Step.texts (steps.take 1)).cutAfterNewline.1.size = 0 := by
  have hline : '\n' ∉ List.replicate 1024 'x' := fun h => nomatch List.eq_of_mem_replicate h
  have hfull : Text.size (List.replicate 1024 'x') = 1024 := Text.size_replicate 1024 'x'
  generalize List.replicate 1024 'x' = t at hline hfull
  intro steps answers
  have hprint : Stdout.empty.print t = ⟨t, []⟩ :=
    Stdout.print_of_room_le .empty hline (Nat.le_of_eq hfull.symm)
  have hcut := Text.cutAfterNewline_append_of_notMem hline []
  have hsleep : Duration.requests ⟨1, 0⟩ = [⟨1, 0⟩] := by
    rw [Duration.requests]
    rfl
  refine ⟨?_, ?_⟩
  · simp only [answers, steps, run, step, start, System.start, System.print, hprint, System.sleep,
      sleepOn, hsleep]
    simp [System.call, Stdout.bytesWritten, hfull]
  · have hforks : writtenAtFork 0 (callsOf (answers.take 1)) = 0 := rfl
    have htexts : Step.texts (steps.take 1) = [] ++ t := List.append_nil t
    rw [hforks, htexts, hcut]
    rfl

end Scripted

end Offspring
