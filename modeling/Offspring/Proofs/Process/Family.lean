import Mathlib.Data.List.Nodup
import Offspring.Proofs.Process.Brood
/-!
# Each child is reaped once, by its own handle

What is heard on a handle depends on the forks and on the waits on that handle alone
(`Run.heard_eq`), and a wait never goes on for ever: every move of a child lowers the work
that is left (`Own.work_lt`), and when no child can move any step of the parent is possible
(`Sound.own_or_step`).

A `Family` is the brood whose children all run to their end at once: each step of it is a
step of a brood that mirrors it (`Mirrors.step`).  So what holds of every brood holds of the
answers and of the text of a family.
-/

namespace Offspring

namespace Brood

variable {log : Log} {b b' : Brood}

/-- The steps that matter for a handle: the forks, and the waits on it. -/
def relevant (place : Nat) (log : Log) : List FamilyStep :=
  (log.map Prod.fst).filter fun s => s.deed?.isSome || s = .wait place

theorem deeds_relevant (place : Nat) (log : Log) :
    (relevant place log).filterMap (·.deed?) = deeds log := by
  rw [relevant, List.filterMap_filter, deeds, List.filterMap_map]
  congr 1
  funext x
  obtain ⟨s, a⟩ := x
  cases s <;> simp [FamilyStep.deed?]

theorem countP_relevant (place : Nat) (log : Log) :
    (relevant place log).countP (· = .wait place) = waits place log := by
  rw [relevant, List.countP_filter, waits, List.countP_map]
  refine List.countP_congr fun x _ => ?_
  simp +contextual

theorem relevant_append (place : Nat) (log log' : Log) :
    relevant place (log ++ log') = relevant place log ++ relevant place log' := by
  simp [relevant]

/-- Nothing fits between two forks of one number. -/
theorem split_of_append {x y y' t : List FamilyStep} {d d' : Deed}
    (ht : .fork d :: y = t ++ .fork d' :: y')
    (hforks : (x.filterMap (·.deed?)).length = ((x ++ t).filterMap (·.deed?)).length) :
    t = [] ∧ d = d' ∧ y = y' := by
  cases t with
  | nil =>
      rw [List.nil_append, List.cons.injEq, FamilyStep.fork.injEq] at ht
      exact ⟨rfl, ht⟩
  | cons s t =>
      rw [List.cons_append, List.cons.injEq] at ht
      rw [← ht.1] at hforks
      simp [FamilyStep.deed?] at hforks

/-- A list is divided at its fork with a given number in one way only. -/
theorem split_unique {x x' y y' : List FamilyStep} {d d' : Deed}
    (h : x ++ .fork d :: y = x' ++ .fork d' :: y')
    (hforks : (x.filterMap (·.deed?)).length = (x'.filterMap (·.deed?)).length) :
    x = x' ∧ d = d' ∧ y = y' := by
  rcases List.append_eq_append_iff.mp h with ⟨t, rfl, ht⟩ | ⟨t, rfl, ht⟩
  · obtain ⟨rfl, rfl, rfl⟩ := split_of_append ht hforks
    exact ⟨(List.append_nil x).symm, rfl, rfl⟩
  · obtain ⟨rfl, rfl, rfl⟩ := split_of_append ht hforks.symm
    exact ⟨List.append_nil x', rfl, rfl⟩

/-- The fork with a given number. -/
theorem exists_fork {place : Nat} {log : Log} (h : place < (deeds log).length) :
    ∃ before deed a after, log = before ++ (.fork deed, a) :: after ∧
      (deeds before).length = place := by
  induction log generalizing place with
  | nil => cases h
  | cons x log ih =>
      obtain ⟨s, a⟩ := x
      cases hs : s.deed? with
      | none =>
          have hskip : ∀ l, deeds ((s, a) :: l) = deeds l := fun l => by simp [deeds, hs]
          rw [hskip] at h
          obtain ⟨before, deed, a', after, rfl, hbefore⟩ := ih h
          exact ⟨(s, a) :: before, deed, a', after, rfl, by rw [hskip, hbefore]⟩
      | some d =>
          have hcount : ∀ l, (deeds ((s, a) :: l)).length = (deeds l).length + 1 := fun l => by
            simp [deeds, hs]
          cases place with
          | zero =>
              cases s <;> cases hs
              exact ⟨[], d, a, log, rfl, rfl⟩
          | succ place =>
              rw [hcount] at h
              obtain ⟨before, deed, a', after, rfl, hbefore⟩ := ih (Nat.lt_of_succ_lt_succ h)
              exact ⟨(s, a) :: before, deed, a', after, rfl, by rw [hcount, hbefore]⟩

/-- **Handles do not disturb each other.**  What is heard on one handle depends on the forks
and on the waits on it alone. -/
theorem Run.heard_eq {log' : Log} {d : Brood} (hr : Run start log b) (hr' : Run start log' d)
    {place : Nat} (h : relevant place log = relevant place log') :
    Brood.heard place log = Brood.heard place log' := by
  have hdeeds : Brood.deeds log = Brood.deeds log' := by
    rw [← deeds_relevant place, h, deeds_relevant]
  have hwaits : waits place log = waits place log' := by
    rw [← countP_relevant, h, countP_relevant]
  rcases Nat.lt_or_ge place (Brood.deeds log).length with hlt | hge
  · obtain ⟨before, deed, a, after, rfl, hbefore⟩ := exists_fork hlt
    obtain ⟨before', deed', a', after', rfl, hbefore'⟩ := exists_fork (hdeeds ▸ hlt)
    subst hbefore
    have hfork : ∀ x : Answer, ∀ e l, relevant (Brood.deeds before).length ((.fork e, x) :: l) =
        .fork e :: relevant (Brood.deeds before).length l := fun x e l => by
      simp [relevant, FamilyStep.deed?]
    rw [relevant_append, relevant_append, hfork, hfork] at h
    obtain ⟨hx, rfl, hy⟩ := split_unique h (by rw [deeds_relevant, deeds_relevant, hbefore'])
    have hheard := (hr.fork rfl).2.1
    have hheard' := (hr'.fork rfl).2.1
    rw [hbefore'] at hheard'
    rw [hheard, hheard', ← countP_relevant _ before, hx, ← countP_relevant _ after, hy,
      countP_relevant, countP_relevant]
  · rw [hr.heard_early hge, hr'.heard_early (hdeeds ▸ hge), hwaits]

end Brood

/-- A print, a fork whose child ends in a way that is known, or a wait on a handle. -/
def FamilyStep.Plain : FamilyStep → Prop
  | .print _ => True
  | .fork deed => deed.Known
  | .wait _ => True
  | .waitPid _ => False

namespace Child

/-- How many moves a child has left. -/
def work (c : Child) : Nat :=
  match c.stage with
  | .working => 2
  | .spoken => 1
  | .ended | .reaped => 0

theorem Move.work_lt {c c' : Child} (h : c.Move c') : c'.work < c.work := by
  cases h with
  | speak status t hstage hdeed => simp [work, hstage]
  | exit status t hstage hdeed => simp [work, hstage]
  | die signal hstage hdeed => simp [work, hstage]

/-- A child that has not ended can move. -/
theorem Going.move_or_over {c : Child} (h : c.Going) :
    (∃ c', c.Move c') ∨ c.stage = .ended ∨ c.stage = .reaped := by
  cases hstage : c.stage with
  | working =>
      cases hdeed : c.deed with
      | exits status t => exact .inl ⟨_, .speak c status t hstage hdeed⟩
      | killed signal => exact .inl ⟨_, .die c signal hstage hdeed⟩
  | spoken =>
      simp only [Going, hstage] at h
      obtain ⟨-, status, t, hdeed⟩ := h
      exact .inl ⟨_, .exit c status t hstage hdeed⟩
  | ended => exact .inr (.inl rfl)
  | reaped => exact .inr (.inr rfl)

end Child

namespace Brood

variable {log : Log} {b b' : Brood}

/-- How many moves all children have left. -/
def work (b : Brood) : Nat :=
  b.children.foldr (fun c n => c.work + n) 0

theorem foldr_work_lt (front : List Child) {m n : Nat} (h : m < n) :
    front.foldr (fun c n => c.work + n) m < front.foldr (fun c n => c.work + n) n := by
  induction front with
  | nil => exact h
  | cons c front ih => exact Nat.add_lt_add_left ih c.work

/-- **The children do not go on for ever.** -/
theorem Own.work_lt (hm : Own b b') : b'.work < b.work := by
  obtain ⟨place, c, c', hc, hmove⟩ := hm
  obtain ⟨front, back, hl, hset⟩ := exists_around hc
  rw [work, work, putChild, hset, hl]
  simp only [List.foldr_append, List.foldr_cons]
  exact foldr_work_lt front (Nat.add_lt_add_right hmove.work_lt _)

/-- There is always a pid that no child has. -/
theorem exists_pid (children : List Child) : ∃ pid, 0 < pid ∧ ∀ c ∈ children, c.pid ≠ pid := by
  have hbound : ∃ pid : Pid, 0 < pid ∧ ∀ c ∈ children, c.pid < pid := by
    induction children with
    | nil => exact ⟨1, by decide, nofun⟩
    | cons c children ih =>
        obtain ⟨pid, hpos, hall⟩ := ih
        refine ⟨max pid (c.pid + 1), Int.lt_of_lt_of_le hpos (Int.le_max_left _ _), fun d hd => ?_⟩
        rcases List.mem_cons.mp hd with rfl | hd
        · exact Int.lt_of_lt_of_le (Int.lt_succ _) (Int.le_max_right _ _)
        · exact Int.lt_of_lt_of_le (hall d hd) (Int.le_max_left _ _)
  obtain ⟨pid, hpos, hall⟩ := hbound
  exact ⟨pid, hpos, fun c hc he => Int.lt_irrefl _ (he ▸ hall c hc)⟩

/-- The raw status of a death tells of it. -/
theorem tells_raw (d : Death) : ForkProgram.Tells d d.raw := by
  cases d with
  | exit status => exact .exit status
  | signal number => exact .signal number

/-- A wait on the handle of a child that has ended, or was reaped, comes to its end. -/
theorem Sound.exists_wait (h : b.Sound log) {place : Nat} {c : Child}
    (hc : b.children[place]? = some c) (hover : c.stage = .ended ∨ c.stage = .reaped) :
    ∃ a b', Step b (.wait place) a b' := by
  have hhandle := h.handle_iff.mpr ⟨c, hc, rfl⟩
  rcases hover with hended | hreaped
  · exact ⟨_, _, .wait b _ place c.pid [] _ hhandle nofun
      (.ended b place c _ hc rfl hended (tells_raw _))⟩
  · refine ⟨_, _, .wait b b place c.pid [] _ hhandle nofun (.noChild b fun d hd hpid => ?_)⟩
    obtain ⟨i, hi⟩ := List.mem_iff_getElem?.mp hd
    cases h.place_unique hi hc hpid
    cases Option.some.inj (hi.symm.trans hc)
    exact hreaped

/-- **A parent is never stuck.**  Some child can move, or every step is possible. -/
theorem Sound.own_or_step (h : b.Sound log) :
    (∃ b', Own b b') ∨ ∀ s : FamilyStep, s.Plain → ∃ a b', Step b s a b' := by
  by_cases hown : ∃ b', Own b b'
  · exact .inl hown
  refine .inr fun s hs => ?_
  cases s with
  | print t => exact ⟨_, _, .print b t⟩
  | fork deed =>
      obtain ⟨pid, hpos, hnew⟩ := exists_pid b.children
      exact ⟨_, _, .fork b pid deed hpos hnew hs⟩
  | waitPid pid => exact hs.elim
  | wait place =>
      cases hc : b.children[place]? with
      | none =>
          refine ⟨_, _, .noChildHandle b place fun pid hpid => ?_⟩
          obtain ⟨c, hc', -⟩ := h.handle_iff.mp hpid
          rw [hc] at hc'
          cases hc'
      | some c =>
          rcases (h.going c (List.mem_of_getElem? hc)).move_or_over with ⟨c', hmove⟩ | hover
          · exact absurd ⟨_, .child b place c c' hc hmove⟩ hown
          · exact h.exists_wait hc hover

theorem Run.trans {later : Log} {m : Brood} (h : Run b log m) (h' : Run m later b') :
    Run b (log ++ later) b' := by
  induction h' with
  | refl => rwa [List.append_nil]
  | own _ hm ih => exact ih.own hm
  | step _ hs ih =>
      rw [← List.append_assoc]
      exact ih.step hs

end Brood

/-- What a step adds to all that is printed, when children run to their end at once. -/
def FamilyStep.text : FamilyStep → Text
  | .print t => t
  | .fork deed => deed.text
  | _ => []

/-- What is left of a child that has ended. -/
def Child.remains (c : Child) : Ended :=
  ⟨c.pid, c.deed.death⟩

namespace Family

open Brood (Log Run)

variable {f : Family} {b : Brood} {log : Log}

theorem printed_step (f : Family) (s : FamilyStep) :
    (f.step s).2.printed = f.printed ++ s.text := by
  cases s with
  | print t => exact Stdout.printed_print f.out t
  | fork deed => simp [step, fork, printed, Stdout.printed, Stdout.flush, FamilyStep.text]
  | wait k =>
      simp only [step]
      split
      · simp [waitFor, printed, FamilyStep.text]
      · simp [FamilyStep.text]
  | waitPid pid => simp [step, waitFor, printed, FamilyStep.text]

/-- Everything is printed once, in the order of the steps. -/
theorem printed_run (f : Family) (steps : List FamilyStep) :
    (f.run steps).2.printed = f.printed ++ steps.flatMap FamilyStep.text := by
  induction steps generalizing f with
  | nil => simp [run]
  | cons s steps ih =>
      simp only [run, List.flatMap_cons]
      rw [ih, printed_step, List.append_assoc]

theorem length_run (f : Family) (steps : List FamilyStep) :
    (f.run steps).1.length = steps.length := by
  induction steps generalizing f with
  | nil => rfl
  | cons s steps ih => simp [run, ih]

/-- A family and a brood that show the same, with all children of the brood at their end. -/
structure Mirrors (f : Family) (b : Brood) : Prop where
  pending : f.out.pending = b.out.pending
  written : f.out.written = b.screen.flatMap Prod.snd
  handles : f.handles = b.handles
  ended : f.ended = (b.children.filter fun c => c.stage ≠ .reaped).map Child.remains
  pids : ∀ c ∈ b.children, c.pid < firstPid + b.children.length
  atEnd : ∀ c ∈ b.children, c.stage = .ended ∨ c.stage = .reaped

theorem mirrors_start : Mirrors start Brood.start :=
  ⟨rfl, rfl, rfl, rfl, nofun, nofun⟩

theorem Mirrors.print (h : Mirrors f b) (t : Text) :
    Mirrors { f with out := f.out.print t } (b.put (b.out.print t)) := by
  obtain ⟨new, rest, hprint⟩ := Stdout.exists_print b.out.pending t
  have hf : f.out.print t = ⟨f.out.written ++ new, rest⟩ := by
    rw [← hprint, ← h.pending]
  have hb : b.out.print t = ⟨b.out.written ++ new, rest⟩ := by
    rw [← hprint]
  exact {
    pending := by rw [hf, Brood.put, hb]
    written := by
      rw [hf, Brood.put, hb, List.drop_left, List.flatMap_append, ← h.written]
      simp
    handles := h.handles
    ended := h.ended
    pids := h.pids
    atEnd := h.atEnd }

/-- A child can run to its end at once, and then has written its text. -/
theorem exists_end {b : Brood} {place : Nat} {c : Child} (hc : b.children[place]? = some c)
    (hgoing : c.Going) (hstage : c.stage ≠ .reaped) :
    ∃ more, c.out.written ++ more.flatMap Prod.snd = c.deed.text ∧
      Run b [] { b with
        children := b.children.set place ⟨c.pid, c.deed, ⟨c.deed.text, []⟩, .ended⟩
        screen := b.screen ++ more } := by
  induction hwork : c.work using Nat.strongRecOn generalizing b c with
  | ind n ih =>
      rcases hgoing.move_or_over with ⟨c', hmove⟩ | hended | hreaped
      · obtain ⟨hpid, hdeed, hwritten, -, hstage'⟩ := hmove.cases
        have hc' : (b.putChild place c c').children[place]? = some c' :=
          List.getElem?_set_self (List.getElem?_eq_some_iff.mp hc).1
        obtain ⟨more, hmore, hrun⟩ := ih c'.work (hwork ▸ hmove.work_lt) hc' (hgoing.move hmove)
          hstage' rfl
        refine ⟨(.child place, c'.out.written.drop c.out.written.length) :: more, ?_,
          (Run.refl.own (.child b place c c' hc hmove)).trans ?_⟩
        · rw [List.flatMap_cons, ← List.append_assoc, append_drop_length hwritten, hmore,
            hdeed]
        · rw [hpid, hdeed] at hrun
          simpa [Brood.putChild] using hrun
      · simp only [Child.Going, hended] at hgoing
        refine ⟨[], by simp [hgoing], ?_⟩
        have hsame : (⟨c.pid, c.deed, ⟨c.deed.text, []⟩, .ended⟩ : Child) = c := by
          rw [← hgoing, ← hended]
        obtain ⟨hlt, hget⟩ := List.getElem?_eq_some_iff.mp hc
        rw [hsame, ← hget, List.set_getElem_self, List.append_nil]
        exact .refl
      · exact absurd hreaped hstage

/-- A fork whose child runs to its end at once. -/
theorem exists_fork_run (b : Brood) {pid : Pid} {deed : Deed} (hpid : 0 < pid)
    (hnew : ∀ c ∈ b.children, c.pid ≠ pid) (hdeed : deed.Known) :
    ∃ b', Run b [(.fork deed, .forked b.handles.length (.parent pid))] b' ∧
      b'.out = b.out.flush ∧ b'.handles = b.handles ++ [.parent pid] ∧
      b'.children = b.children ++ [⟨pid, deed, ⟨deed.text, []⟩, .ended⟩] ∧
      b'.screen.flatMap Prod.snd = b.screen.flatMap Prod.snd ++ b.out.pending ++ deed.text := by
  have hchild : (b.fork pid deed).children[b.children.length]? = some (.start pid deed []) :=
    List.getElem?_concat_length
  obtain ⟨more, hmore, hrun⟩ := exists_end hchild rfl nofun
  have htext : more.flatMap Prod.snd = deed.text := hmore
  refine ⟨_, (Run.refl.step (.fork b pid deed hpid hnew hdeed)).trans hrun, rfl, rfl, ?_, ?_⟩
  · simp [Brood.fork, Brood.put, Child.start]
  · rw [List.flatMap_append, htext]
    simp [Brood.fork, Brood.put, Stdout.printed]

theorem Mirrors.fork (h : Mirrors f b) (hb : b.Sound log) {deed : Deed} (hdeed : deed.Known) :
    ∃ b', Run b [(.fork deed, (f.fork deed).1)] b' ∧ Mirrors (f.fork deed).2 b' := by
  have hlength : f.handles.length = b.children.length := by
    rw [h.handles, hb.handles, List.length_map]
  obtain ⟨pid, hpid⟩ : ∃ pid : Pid, pid = firstPid + b.children.length := ⟨_, rfl⟩
  have hpos : 0 < pid := by
    rw [hpid, firstPid]
    exact Int.add_pos_of_pos_of_nonneg (by decide) (Int.natCast_nonneg _)
  have hpids : ∀ c ∈ b.children, c.pid < pid := fun c hc => hpid ▸ h.pids c hc
  have hfork : f.fork deed = (.forked b.handles.length (.parent pid),
      ⟨⟨f.out.flush.written ++ deed.text, []⟩, f.ended ++ [⟨pid, deed.death⟩],
        b.handles ++ [.parent pid]⟩) := by
    rw [Family.fork, hlength, ← hpid, h.handles, ← hlength, h.handles]
    rfl
  obtain ⟨b', hrun, hout, hhandles, hchildren, hscreen⟩ :=
    exists_fork_run b hpos (fun c hc => Int.ne_of_lt (hpids c hc)) hdeed
  rw [hfork]
  exact ⟨b', hrun, {
    pending := by rw [hout]; rfl
    written := by rw [hscreen, ← h.written, ← h.pending]; rfl
    handles := hhandles.symm
    ended := by
      rw [hchildren, h.ended]
      simp [Child.remains]
    pids := by
      have hnext : pid < firstPid + b'.children.length := by
        rw [hpid, hchildren, List.length_append]
        exact Int.add_lt_add_left (Int.ofNat_lt.mpr (Nat.lt_succ_self _)) _
      intro c hc
      rw [hchildren, List.mem_append, List.mem_singleton] at hc
      rcases hc with hc | rfl
      · exact Int.lt_trans (hpids c hc) hnext
      · exact hnext
    atEnd := by
      intro c hc
      rw [hchildren, List.mem_append, List.mem_singleton] at hc
      rcases hc with hc | rfl
      · exact h.atEnd c hc
      · exact .inl rfl }⟩

/-- A pid that is not special matches the child that has it. -/
theorem matchesChild_of_pos {target : Pid} (h : 0 < target) (e : Ended) :
    matchesChild target e = decide (target = e.pid) := by
  have hany : target ≠ -1 := fun he => absurd (he ▸ h) (by decide)
  have hgroup : target ≠ 0 := Int.ne_of_gt h
  simp [matchesChild, hany, hgroup]

theorem ne_noPid_of_pos {target : Pid} (h : 0 < target) : target ≠ noPid :=
  fun he => absurd (he ▸ h) (by decide)

/-- A wait for a pid that no child has finds none, and leaves all. -/
theorem waitFor_of_none {target : Pid} (hpos : 0 < target) (hnone : ∀ e ∈ f.ended, e.pid ≠ target) :
    f.waitFor target = (.waited (.error .noChildProcess), f) := by
  have hfilter : f.ended.filter (matchesChild target) = [] := by
    refine List.filter_eq_nil_iff.mpr fun e he => ?_
    rw [matchesChild_of_pos hpos, decide_eq_true_eq]
    exact fun heq => hnone e he heq.symm
  have hleft : f.leftAfter target 1 = f.ended := by
    rw [leftAfter, hfilter]
    simp
  simp only [waitFor, replies, if_neg (ne_noPid_of_pos hpos), hfilter, List.map_nil, waitOn, hleft]
  rfl

/-- A wait for the one child that has the pid reaps it, and leaves the others. -/
theorem waitFor_of_ended {front back : List Ended} {e : Ended} {w : WaitEnd}
    (hended : f.ended = front ++ e :: back) (hpos : 0 < e.pid)
    (hothers : ∀ x ∈ front ++ back, x.pid ≠ e.pid)
    (hjudge : (WaitReply.returned e.pid e.death.raw).judge e.pid = .ends w) :
    f.waitFor e.pid = (.waited w, { f with ended := front ++ back }) := by
  have hnone : ∀ l : List Ended, (∀ x ∈ l, x.pid ≠ e.pid) →
      l.filter (matchesChild e.pid) = [] ∧ l.filter (fun x => !decide (x = e)) = l := by
    intro l hl
    refine ⟨List.filter_eq_nil_iff.mpr fun x hx => ?_, List.filter_eq_self.mpr fun x hx => ?_⟩
    · rw [matchesChild_of_pos hpos, decide_eq_true_eq]
      exact fun heq => hl x hx heq.symm
    · simpa using fun heq : x = e => hl x hx (by rw [heq])
  obtain ⟨hfront, hfront'⟩ := hnone front fun x hx => hothers x (List.mem_append_left _ hx)
  obtain ⟨hback, hback'⟩ := hnone back fun x hx => hothers x (List.mem_append_right _ hx)
  have hmatch : matchesChild e.pid e = true := by simp [matchesChild]
  have hfilter : f.ended.filter (matchesChild e.pid) = [e] := by
    rw [hended, List.filter_append, hfront, List.filter_cons_of_pos hmatch, hback]
    rfl
  have hleft : f.leftAfter e.pid 1 = front ++ back := by
    have hreaped : (fun x : Ended => !([e].take 1).contains x) = fun x => !decide (x = e) := by
      funext x
      simp
    rw [leftAfter, hfilter, hreaped, hended, List.filter_append, hfront',
      List.filter_cons_of_neg (by simp), hback']
  simp only [waitFor, replies, if_neg (ne_noPid_of_pos hpos), hfilter, List.map_cons,
    List.map_nil, waitOn, hjudge, hleft]

theorem Mirrors.wait (h : Mirrors f b) (hb : b.Sound log) {place : Nat} {c : Child}
    (hc : b.children[place]? = some c) :
    ∃ b', Run b [(.wait place, (f.waitFor c.pid).1)] b' ∧ Mirrors (f.waitFor c.pid).2 b' := by
  have hpos := hb.pids c (List.mem_of_getElem? hc)
  obtain ⟨a, b', hs⟩ := hb.exists_wait hc (h.atEnd c (List.mem_of_getElem? hc))
  refine ⟨b', ?_⟩
  obtain ⟨front, back, hchildren, hset⟩ := exists_around hc
  have hapart := hb.apart
  rw [hchildren, List.map_append, List.map_cons, List.nodup_middle, List.nodup_cons] at hapart
  have hothers : ∀ d ∈ front ++ back, d.pid ≠ c.pid := fun d hd he =>
    hapart.1 (by rw [← List.map_append, ← he]; exact List.mem_map_of_mem hd)
  have hended := h.ended
  rw [hchildren, List.filter_append, List.map_append] at hended
  rcases hb.wait_cases hs with ⟨hge, -, -⟩ | ⟨d, hd, hcase⟩
  · exact absurd (List.getElem?_eq_some_iff.mp hc).1 (Nat.not_lt_of_le hge)
  cases Option.some.inj (hd.symm.trans hc)
  rcases hcase with ⟨hstage, rfl, rfl⟩ | ⟨hstage, rfl, rfl⟩
  · rw [List.filter_cons_of_neg (by simp [hstage]), ← List.map_append, ← List.filter_append]
      at hended
    have hnone : ∀ e ∈ f.ended, e.pid ≠ c.pid := by
      intro e he
      rw [hended] at he
      obtain ⟨x, hx, rfl⟩ := List.mem_map.mp he
      exact hothers x (List.mem_filter.mp hx).1
    rw [waitFor_of_none hpos hnone]
    exact ⟨Run.refl.step hs, h⟩
  · rw [List.filter_cons_of_pos (by simp [hstage]), List.map_cons] at hended
    have hknown := Brood.isKnown_death (hb.known c (List.mem_of_getElem? hc))
    have hjudge := (Brood.tells_raw c.deed.death).judge hknown (Int.ne_of_gt hpos)
    have hwait := waitFor_of_ended (e := c.remains) hended hpos (by
      intro x hx
      rw [← List.map_append, ← List.filter_append] at hx
      obtain ⟨d, hd, rfl⟩ := List.mem_map.mp hx
      exact hothers d (List.mem_filter.mp hd).1) hjudge
    rw [show c.pid = c.remains.pid from rfl, hwait]
    refine ⟨Run.refl.step hs, {
      pending := h.pending
      written := h.written
      handles := h.handles
      ended := ?_
      pids := ?_
      atEnd := ?_ }⟩
    · rw [hset, List.filter_append, List.filter_cons_of_neg (by simp), List.map_append]
    · intro d hd
      rw [List.length_set]
      rcases List.mem_or_eq_of_mem_set hd with hd | rfl
      · exact h.pids d hd
      · exact h.pids c (List.mem_of_getElem? hc)
    · intro d hd
      rcases List.mem_or_eq_of_mem_set hd with hd | rfl
      · exact h.atEnd d hd
      · exact .inr rfl

/-- **A family is a brood** whose children run to their end at once. -/
theorem Mirrors.step (h : Mirrors f b) (hb : b.Sound log) {s : FamilyStep} (hs : s.Plain) :
    ∃ b', Run b [(s, (f.step s).1)] b' ∧ Mirrors (f.step s).2 b' := by
  cases s with
  | print t => exact ⟨_, Run.refl.step (.print b t), h.print t⟩
  | fork deed => exact h.fork hb hs
  | waitPid pid => exact hs.elim
  | wait place =>
      cases hc : b.children[place]? with
      | none =>
          have hhandle : ∀ pid, b.handles[place]? ≠ some (.parent pid) := by
            intro pid hpid
            obtain ⟨c, hc', -⟩ := hb.handle_iff.mp hpid
            rw [hc] at hc'
            cases hc'
          have hstep : f.step (.wait place) = (.noChildHandle, f) := by
            simp only [Family.step, h.handles]
          rw [hstep]
          exact ⟨b, Run.refl.step (.noChildHandle b place hhandle), h⟩
      | some c =>
          have hstep : f.step (.wait place) = f.waitFor c.pid := by
            simp only [Family.step, h.handles, hb.handle_iff.mpr ⟨c, hc, rfl⟩]
          rw [hstep]
          exact h.wait hb hc

theorem Mirrors.run (h : Mirrors f b) (hb : b.Sound log) {steps : List FamilyStep}
    (hsteps : ∀ s ∈ steps, s.Plain) :
    ∃ b', Run b (steps.zip (f.run steps).1) b' ∧ Mirrors (f.run steps).2 b' := by
  induction steps generalizing f b log with
  | nil => exact ⟨b, .refl, h⟩
  | cons s steps ih =>
      obtain ⟨m, hfirst, hm⟩ := h.step hb (hsteps s List.mem_cons_self)
      obtain ⟨b', hrest, hb'⟩ := ih hm (hb.run hfirst) fun s' hs' =>
        hsteps s' (List.mem_cons_of_mem s hs')
      exact ⟨b', hfirst.trans hrest, hb'⟩

/-- A family is one of the broods that can come of its steps. -/
theorem exists_brood {steps : List FamilyStep} (hsteps : ∀ s ∈ steps, s.Plain) :
    ∃ log b, Run .start log b ∧ log.map Prod.fst = steps ∧
      log.map Prod.snd = (start.run steps).1 ∧ b.printed = (start.run steps).2.printed := by
  obtain ⟨b, hrun, hb⟩ := mirrors_start.run Brood.sound_start hsteps
  have hlength := length_run start steps
  refine ⟨_, b, hrun, List.map_fst_zip (Nat.le_of_eq hlength.symm),
    List.map_snd_zip (Nat.le_of_eq hlength), ?_⟩
  rw [printed, Stdout.printed, hb.written, hb.pending]
  rfl

end Family

/-- The code of an exit is its status modulo 256, and success is zero there. -/
theorem code_of_exit (status : Int) :
    (Death.exit status).status.code = status % 256 ∧ 0 ≤ (Death.exit status).status.code ∧
      (Death.exit status).status.code ≤ 255 ∧
      ((Death.exit status).status.success = true ↔ 256 ∣ status) := by
  have hcode : (Death.exit status).status.code = status % 256 := rfl
  have hsuccess : (Death.exit status).status.success = true ↔ status % 256 = 0 := by
    rw [ExitStatus.success, hcode, beq_iff_eq]
  rw [hcode, hsuccess]
  omega

open Brood in
/-- **Each child is reaped once, by its own handle.**  Steps that print, fork and wait can be
followed by a process with children whatever the children do meanwhile, and a wait is not
for ever: every move of a child lowers the work left, and when no child can move any step is
possible.  One way to follow them is that of a family, whose text is that of the steps in
order.

However they are followed, waits on the handle of a fork hear that there is no such handle
before the fork; after it the first one hears how the child of that fork ended and reaps
it, and any other hears that there is no child.  What one handle hears is the same for all
steps with the same forks and the same waits on it.  The parent writes all that it prints,
and a child that has ended its text, on a screen where all that was printed before the fork
comes before the child; nobody else writes. -/
theorem reaping_law (steps : List FamilyStep) (hsteps : ∀ s ∈ steps, s.Plain) :
    (∃ log b, Run .start log b ∧ log.map Prod.fst = steps ∧
      log.map Prod.snd = (Family.start.run steps).1 ∧
      b.printed = (Family.start.run steps).2.printed ∧
      b.printed = steps.flatMap FamilyStep.text) ∧
    (∀ log b, Run .start log b →
      (∀ before deed a after, log = before ++ (.fork deed, a) :: after →
        let k := (deeds before).length
        (∃ pid, a = .forked k (.parent pid)) ∧
        heard k log =
          List.replicate (waits k before) .noChildHandle ++ told deed (waits k after) ∧
        (∃ c, b.children[k]? = some c ∧ c.deed = deed ∧ (c.stage = .reaped ↔ waits k after ≠ 0) ∧
          writes (.child k) b.screen <+: deed.text ∧
          (c.stage = .ended ∨ c.stage = .reaped → writes (.child k) b.screen = deed.text)) ∧
        ∃ front back, b.screen = front ++ back ∧ writes .parent front = prints before ∧
          writes (.child k) front = []) ∧
      (∀ k, (deeds log).length ≤ k →
        heard k log = List.replicate (waits k log) .noChildHandle ∧
        writes (.child k) b.screen = []) ∧
      writes .parent b.screen ++ b.out.pending = prints log ∧
      (∀ k log' b', Run .start log' b' → relevant k log = relevant k log' →
        heard k log = heard k log') ∧
      (∀ b', Own b b' → b'.work < b.work) ∧
      ((∃ b', Own b b') ∨ ∀ s : FamilyStep, s.Plain → ∃ a b', Brood.Step b s a b')) ∧
    (∀ status text, let s := (Deed.exits status text).death.status
      s.code = status % 256 ∧ 0 ≤ s.code ∧ s.code ≤ 255 ∧ (s.success = true ↔ 256 ∣ status)) ∧
    ∀ signal, (Deed.killed signal).death.status.code = 128 + signal := by
  refine ⟨?_, ?_, fun status text => code_of_exit status, fun signal => rfl⟩
  · obtain ⟨log, b, hrun, hfst, hsnd, hprinted⟩ := Family.exists_brood hsteps
    refine ⟨log, b, hrun, hfst, hsnd, hprinted, ?_⟩
    rw [hprinted, Family.printed_run]
    rfl
  · intro log b hrun
    have hb : b.Sound log := sound_start.run hrun
    refine ⟨fun before deed a after hlog => hrun.fork hlog, ?_, ?_,
      fun k log' b' hrun' h => hrun.heard_eq hrun' h, fun b' hm => hm.work_lt, hb.own_or_step⟩
    · intro k hk
      exact ⟨hrun.heard_early hk, hb.others k (hb.length_children ▸ hk)⟩
    · rw [hb.parent]
      exact hb.printed

/-- Two children, the first waited for after the second, and either twice. -/
theorem reaping_law_two_children :
    let steps : List FamilyStep := [.print ['a'], .fork (.exits (-1) ['b']), .wait 1,
      .fork (.killed 9), .wait 1, .wait 0, .wait 1, .wait 0]
    (∀ s ∈ steps, s.Plain) ∧ (Family.start.run steps).2.printed = ['a', 'b'] ∧
      ∃ log b, Brood.Run .start log b ∧ log.map Prod.fst = steps ∧
        Brood.heard 0 log = [.waited (.status ⟨255⟩), .waited (.error .noChildProcess)] ∧
        Brood.heard 1 log = [.noChildHandle, .waited (.status ⟨137⟩),
          .waited (.error .noChildProcess)] := by
  intro steps
  have hsteps : ∀ s ∈ steps, s.Plain := by
    simp [steps, FamilyStep.Plain, Deed.Known]
  obtain ⟨⟨log, b, hrun, hfst, hsnd, hprinted, htext⟩, hlaw, -⟩ := reaping_law steps hsteps
  have hlog : log = steps.zip (Family.start.run steps).1 := by
    rw [← hsnd, ← hfst, ← List.unzip_fst, ← List.unzip_snd, List.zip_unzip]
  obtain ⟨hforks, -⟩ := hlaw log b hrun
  have hfirst := (hforks (log.take 1) (.exits (-1) ['b']) _ (log.drop 2) (by rw [hlog]; rfl)).2.1
  have hsecond := (hforks (log.take 3) (.killed 9) _ (log.drop 4) (by rw [hlog]; rfl)).2.1
  refine ⟨hsteps, ?_, log, b, hrun, hfst, ?_, ?_⟩
  · rw [← hprinted, htext]
    rfl
  · subst hlog
    exact hfirst
  · subst hlog
    exact hsecond

end Offspring
