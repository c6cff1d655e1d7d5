import Offspring.Process.Brood
import Offspring.Proofs.ForkProgram.Pair
import Offspring.Proofs.Lists
import Offspring.Proofs.System.Stdout
/-!
# What a process hears of its children

`Sound` ties a brood to the steps that led to it: the handles and the children are those of
the forks, in order and with pids of their own; each child has written what its stage says;
and the parent has printed what its steps print.  Every move of a child and every step keeps
it (`Sound.own`, `Sound.step`).

In a sound brood the handle at a place leads to the child at that place and to no other, so
a wait on it can end in three ways only (`Sound.wait_cases`): there is no such handle, the
child has been reaped and there is none, or it has ended and is reaped now.  No other step
and no move touches how far that child has been reaped, and from there the answers to the
waits on one handle are told step by step (`Run.heard`).
-/

namespace Offspring

/-- The deed of the child that a step makes. -/
def FamilyStep.deed? : FamilyStep → Option Deed
  | .fork deed => some deed
  | _ => none

/-- What the parent prints in a step. -/
def FamilyStep.prints : FamilyStep → Text
  | .print t => t
  | _ => []

namespace Child

/-- What a child has printed and written when it has come so far. -/
def Going (c : Child) : Prop :=
  match c.stage with
  | .working => c.out = .empty
  | .spoken => c.out.printed = c.deed.text ∧ ∃ status t, c.deed = .exits status t
  | .ended | .reaped => c.out = ⟨c.deed.text, []⟩

/-- A move leaves pid and deed, writes on, and neither follows a reaping nor is one. -/
theorem Move.cases {c c' : Child} (h : c.Move c') :
    c'.pid = c.pid ∧ c'.deed = c.deed ∧ c.out.written <+: c'.out.written ∧
      c.stage ≠ .reaped ∧ c'.stage ≠ .reaped := by
  cases h with
  | speak status t hstage hdeed =>
      exact ⟨rfl, rfl, c.out.written_prefix_print t, by simp [hstage], nofun⟩
  | exit status t hstage hdeed =>
      exact ⟨rfl, rfl, List.prefix_append _ _, by simp [hstage], nofun⟩
  | die signal hstage hdeed => exact ⟨rfl, rfl, List.prefix_rfl, by simp [hstage], nofun⟩

theorem Going.move {c c' : Child} (hc : c.Going) (h : c.Move c') : c'.Going := by
  cases h with
  | speak status t hstage hdeed =>
      simp only [Going, hstage] at hc
      exact ⟨by simp [speak, hdeed, hc, Deed.text], status, t, hdeed⟩
  | exit status t hstage hdeed =>
      simp only [Going, hstage] at hc
      simp [Going, exit, Stdout.exit, Stdout.flush, hc]
  | die signal hstage hdeed =>
      simp only [Going, hstage] at hc
      simp [Going, die, hdeed, hc, Deed.text, Stdout.empty]

end Child

namespace Brood

/-- Steps that were taken, with what they said. -/
abbrev Log := List (FamilyStep × Answer)

/-- The deeds of the children, in the order of the forks. -/
def deeds (log : Log) : List Deed :=
  log.filterMap fun x => x.1.deed?

/-- What the parent has printed. -/
def prints (log : Log) : Text :=
  log.flatMap fun x => x.1.prints

/-- What the waits on the handle at a place have said. -/
def heard (place : Nat) (log : Log) : List Answer :=
  (log.filter fun x => x.1 = .wait place).map Prod.snd

/-- What one process has written, of all that is on the screen. -/
def writes (w : Writer) (screen : List (Writer × Text)) : Text :=
  (screen.filter fun e => e.1 = w).flatMap Prod.snd

section Rows

variable (place : Nat) (log log' : Log) (w : Writer) (screen screen' : List (Writer × Text))

@[simp] theorem deeds_append : deeds (log ++ log') = deeds log ++ deeds log' :=
  List.filterMap_append

@[simp] theorem prints_append : prints (log ++ log') = prints log ++ prints log' :=
  List.flatMap_append

@[simp] theorem heard_append : heard place (log ++ log') = heard place log ++ heard place log' := by
  simp [heard]

@[simp] theorem writes_append :
    writes w (screen ++ screen') = writes w screen ++ writes w screen' := by
  simp [writes]

@[simp] theorem writes_self (t : Text) : writes w [(w, t)] = t := by
  simp [writes]

theorem writes_other {w w' : Writer} (h : w' ≠ w) (t : Text) : writes w [(w', t)] = [] := by
  simp [writes, h]

end Rows

/-- What holds of a brood after some steps. -/
structure Sound (log : Log) (b : Brood) : Prop where
  handles : b.handles = b.children.map fun c => .parent c.pid
  deeds : b.children.map (·.deed) = Brood.deeds log
  known : ∀ c ∈ b.children, c.deed.Known
  pids : ∀ c ∈ b.children, 0 < c.pid
  apart : (b.children.map (·.pid)).Nodup
  going : ∀ c ∈ b.children, c.Going
  child : ∀ place c, b.children[place]? = some c → writes (.child place) b.screen = c.out.written
  others : ∀ place, b.children.length ≤ place → writes (.child place) b.screen = []
  parent : writes .parent b.screen = b.out.written
  printed : b.out.printed = prints log

variable {log : Log} {b b' : Brood}

theorem Sound.length_children (h : b.Sound log) : b.children.length = (Brood.deeds log).length := by
  rw [← h.deeds, List.length_map]

/-- A child that goes on, with the screen as far as the child has written on it. -/
theorem Sound.replace (h : b.Sound log) {place : Nat} {c c' : Child}
    (hc : b.children[place]? = some c) (hpid : c'.pid = c.pid) (hdeed : c'.deed = c.deed)
    (hgoing : c'.Going) {screen : List (Writer × Text)}
    (hown : writes (.child place) screen = c'.out.written)
    (hothers : ∀ w, w ≠ .child place → writes w screen = writes w b.screen) :
    ({ b with children := b.children.set place c', screen } : Brood).Sound log := by
  have hmem : c ∈ b.children := List.mem_of_getElem? hc
  have hlt : place < b.children.length := (List.getElem?_eq_some_iff.mp hc).1
  have hall : ∀ {P : Child → Prop}, (∀ d ∈ b.children, P d) → P c' →
      ∀ d ∈ b.children.set place c', P d := by
    intro P hP hP' d hd
    rcases List.mem_or_eq_of_mem_set hd with hd | rfl
    · exact hP d hd
    · exact hP'
  exact {
    handles := by rw [h.handles]; exact (map_set_of_eq hc (by rw [hpid])).symm
    deeds := (map_set_of_eq hc hdeed).trans h.deeds
    known := hall h.known (hdeed ▸ h.known c hmem)
    pids := hall h.pids (hpid ▸ h.pids c hmem)
    apart := by rw [map_set_of_eq (f := (·.pid)) hc hpid]; exact h.apart
    going := hall h.going hgoing
    child := by
      intro place' d hd
      by_cases hplace : place = place'
      · subst hplace
        rw [List.getElem?_set_self hlt, Option.some.injEq] at hd
        rw [← hd]
        exact hown
      · rw [List.getElem?_set_ne hplace] at hd
        have hne : Writer.child place' ≠ .child place := fun he => hplace (Writer.child.inj he).symm
        exact (hothers _ hne).trans (h.child place' d hd)
    others := by
      intro place' hplace
      rw [List.length_set] at hplace
      have hne : Writer.child place' ≠ .child place := fun he => by
        rw [Writer.child.inj he] at hplace
        omega
      exact (hothers _ hne).trans (h.others place' hplace)
    parent := (hothers .parent (by simp)).trans h.parent
    printed := h.printed }

/-- A move of a child keeps a brood sound. -/
theorem Sound.own (h : b.Sound log) (hm : Own b b') : b'.Sound log := by
  obtain ⟨place, c, c', hc, hmove⟩ := hm
  obtain ⟨hpid, hdeed, hwritten, -, -⟩ := hmove.cases
  refine h.replace hc hpid hdeed ((h.going c (List.mem_of_getElem? hc)).move hmove) ?_ ?_
  · rw [writes_append, h.child place c hc, writes_self, append_drop_length hwritten]
  · intro w hw
    rw [writes_append, writes_other hw.symm, List.append_nil]

/-- The parent goes on with its output, after which it has printed what its steps print. -/
theorem Sound.put (h : b.Sound log) {out : Stdout} {s : FamilyStep} {a : Answer}
    (hwritten : b.out.written <+: out.written) (hprinted : out.printed = b.out.printed ++ s.prints)
    (hdeed : s.deed? = none) : (b.put out).Sound (log ++ [(s, a)]) := by
  have hother : ∀ place, writes (.child place) (b.put out).screen =
      writes (.child place) b.screen := by
    intro place
    have hne : Writer.parent ≠ .child place := by simp
    rw [Brood.put, writes_append, writes_other hne, List.append_nil]
  exact {
    handles := h.handles
    deeds := by simp [Brood.put, h.deeds, Brood.deeds, hdeed]
    known := h.known
    pids := h.pids
    apart := h.apart
    going := h.going
    child := fun place c hc => (hother place).trans (h.child place c hc)
    others := fun place hplace => (hother place).trans (h.others place hplace)
    parent := by
      rw [Brood.put, writes_append, h.parent, writes_self, append_drop_length hwritten]
    printed := by simp [Brood.put, hprinted, h.printed, prints] }

/-- A fork writes what is pending, and the child starts with nothing. -/
theorem Sound.fork (h : b.Sound log) {pid : Pid} {deed : Deed} {a : Answer} (hpid : 0 < pid)
    (hnew : ∀ c ∈ b.children, c.pid ≠ pid) (hdeed : deed.Known) :
    (b.fork pid deed).Sound (log ++ [(.fork deed, a)]) := by
  have hput : (b.put b.out.flush).Sound (log ++ [(.print [], .done)]) :=
    h.put (List.prefix_append _ _) (by simp [FamilyStep.prints]) rfl
  have hchildren : (b.fork pid deed).children = b.children ++ [.start pid deed []] := rfl
  have hall : ∀ {P : Child → Prop}, (∀ c ∈ b.children, P c) → P (.start pid deed []) →
      ∀ c ∈ (b.fork pid deed).children, P c := by
    intro P hP hP' c hc
    rw [hchildren, List.mem_append, List.mem_singleton] at hc
    rcases hc with hc | rfl
    · exact hP c hc
    · exact hP'
  exact {
    handles := by
      rw [hchildren, List.map_append, ← h.handles]
      rfl
    deeds := by
      rw [hchildren, List.map_append, h.deeds, deeds_append]
      rfl
    known := hall h.known hdeed
    pids := hall h.pids hpid
    apart := by
      rw [hchildren, List.map_append]
      refine List.nodup_append.mpr ⟨h.apart, by simp, ?_⟩
      intro p hp q hq
      obtain ⟨c, hc, rfl⟩ := List.mem_map.mp hp
      cases List.mem_singleton.mp hq
      exact hnew c hc
    going := hall h.going rfl
    child := by
      intro place c hc
      rw [hchildren] at hc
      rcases Nat.lt_or_ge place b.children.length with hlt | hge
      · rw [List.getElem?_append_left hlt] at hc
        exact hput.child place c hc
      · rw [List.getElem?_append_right hge, List.getElem?_singleton] at hc
        split at hc
        · cases hc
          exact hput.others place hge
        · cases hc
    others := by
      intro place hplace
      rw [hchildren, List.length_append] at hplace
      exact hput.others place (by omega : b.children.length ≤ place)
    parent := hput.parent
    printed := by
      have hprinted : (b.fork pid deed).out.printed = _ := hput.printed
      simpa [prints, FamilyStep.prints] using hprinted }

theorem Step.fork_cases {deed : Deed} {a : Answer} (hs : Step b (.fork deed) a b') :
    ∃ pid, 0 < pid ∧ (∀ c ∈ b.children, c.pid ≠ pid) ∧ deed.Known ∧
      a = .forked b.handles.length (.parent pid) ∧ b' = b.fork pid deed := by
  cases hs
  exact ⟨_, ‹_›, ‹_›, ‹_›, rfl, rfl⟩

/-- The handle at a place leads to the child at that place. -/
theorem Sound.handle_iff (h : b.Sound log) {place : Nat} {pid : Pid} :
    b.handles[place]? = some (.parent pid) ↔
      ∃ c, b.children[place]? = some c ∧ c.pid = pid := by
  rw [h.handles, List.getElem?_map, Option.map_eq_some_iff]
  simp

/-- Children with one pid are one child. -/
theorem Sound.place_unique (h : b.Sound log) {i j : Nat} {c d : Child}
    (hc : b.children[i]? = some c) (hd : b.children[j]? = some d) (hpid : c.pid = d.pid) :
    i = j := by
  have hlt : i < (b.children.map (·.pid)).length := by
    rw [List.length_map]
    exact (List.getElem?_eq_some_iff.mp hc).1
  refine (List.getElem?_inj hlt h.apart).mp ?_
  rw [List.getElem?_map, List.getElem?_map, hc, hd, Option.map_some, Option.map_some, hpid]

theorem isKnown_death {deed : Deed} (h : deed.Known) : deed.death.isKnown = true := by
  cases deed with
  | exits status text => rfl
  | killed signal =>
      have hsignal : 1 ≤ signal ∧ signal ≤ 31 := h
      simpa [Deed.death, Death.isKnown, Report.isKnownSignal] using hsignal

/-- The reply that decides a wait decides it after any idle replies. -/
theorem waitOn_idle {pid : Pid} {idle : List WaitReply} {r : WaitReply} {e : WaitEnd}
    (hidle : ∀ i ∈ idle, ForkProgram.Undecided i) (hr : r.judge pid = .ends e) :
    (waitOn pid (idle ++ [r])).1 = e := by
  have hall : ∀ i ∈ idle, i.isIdle = true := fun i hi =>
    (i.judge_eq_again_iff pid).mp ((hidle i hi).judge pid)
  rw [waitOn_append_idle hall hr]

/-- **How a wait on a handle ends.**  There is no such handle, or its child was reaped and
there is none any more, or its child has ended and is reaped. -/
theorem Sound.wait_cases (h : b.Sound log) {place : Nat} {a : Answer}
    (hs : Step b (.wait place) a b') :
    (b.children.length ≤ place ∧ a = .noChildHandle ∧ b' = b) ∨
      ∃ c, b.children[place]? = some c ∧
        ((c.stage = .reaped ∧ a = .waited (.error .noChildProcess) ∧ b' = b) ∨
          (c.stage = .ended ∧ a = .waited (.status c.deed.death.status) ∧
            b' = { b with children := b.children.set place c.reap })) := by
  cases hs with
  | noChildHandle _ hplace =>
      refine .inl ⟨?_, rfl, rfl⟩
      by_contra hlt
      have hget := List.getElem?_eq_getElem (Nat.lt_of_not_le hlt)
      exact hplace _ (h.handle_iff.mpr ⟨_, hget, rfl⟩)
  | wait _ _ pid idle r hplace hidle hr =>
      obtain ⟨c, hc, rfl⟩ := h.handle_iff.mp hplace
      refine .inr ⟨c, hc, ?_⟩
      have hmem : c ∈ b.children := List.mem_of_getElem? hc
      cases hr with
      | noChild hnone =>
          exact .inl ⟨hnone c hmem rfl, congrArg Answer.waited (waitOn_idle hidle rfl), rfl⟩
      | ended place' d raw hd hpid hstage hraw =>
          cases h.place_unique hd hc hpid
          cases Option.some.inj (hd.symm.trans hc)
          have hjudge : (WaitReply.returned c.pid raw).judge c.pid = _ :=
            hraw.judge (isKnown_death (h.known c hmem)) (Int.ne_of_gt (h.pids c hmem))
          exact .inr ⟨hstage, congrArg Answer.waited (waitOn_idle hidle hjudge), rfl⟩

/-- **A step keeps a brood sound.** -/
theorem Sound.step (h : b.Sound log) {s : FamilyStep} {a : Answer} (hs : Step b s a b') :
    b'.Sound (log ++ [(s, a)]) := by
  have hsame : ∀ place a', ∀ d : Brood, d.Sound log → d.Sound (log ++ [(.wait place, a')]) := by
    intro place a' d hd
    exact { hd with
      deeds := by simpa [Brood.deeds, FamilyStep.deed?] using hd.deeds
      printed := by simpa [prints, FamilyStep.prints] using hd.printed }
  cases s with
  | print t =>
      cases hs
      exact h.put (b.out.written_prefix_print t) (by simp [FamilyStep.prints]) rfl
  | fork deed =>
      obtain ⟨pid, hpid, hnew, hdeed, rfl, rfl⟩ := hs.fork_cases
      exact h.fork hpid hnew hdeed
  | waitPid pid => cases hs
  | wait place =>
      rcases h.wait_cases hs with ⟨-, rfl, rfl⟩ | ⟨c, hc, ⟨-, rfl, rfl⟩ | ⟨hstage, rfl, rfl⟩⟩
      · exact hsame _ _ _ h
      · exact hsame _ _ _ h
      · have hgoing := h.going c (List.mem_of_getElem? hc)
        have hreap : c.reap.Going := by simpa [Child.Going, hstage, Child.reap] using hgoing
        have hpid : c.reap.pid = c.pid := rfl
        exact hsame _ _ _ (h.replace hc hpid rfl hreap (h.child place c hc) fun w _ => rfl)

theorem sound_start : start.Sound [] :=
  ⟨rfl, rfl, nofun, nofun, List.nodup_nil, nofun, nofun, fun _ _ => rfl, rfl, rfl⟩

/-- Whatever the children do meanwhile, a brood stays sound. -/
theorem Sound.run (h : b.Sound log) {later : Log} (hr : Run b later b') :
    b'.Sound (log ++ later) := by
  induction hr with
  | refl => rwa [List.append_nil]
  | own _ hm ih => exact ih.own hm
  | step _ hs ih =>
      rw [← List.append_assoc]
      exact ih.step hs

/-- A move of a child reaps none. -/
theorem Own.frame (hm : Own b b') {place : Nat} {c : Child} (hc : b.children[place]? = some c) :
    ∃ c', b'.children[place]? = some c' ∧ c'.deed = c.deed ∧
      (c'.stage = .reaped ↔ c.stage = .reaped) := by
  obtain ⟨i, d, d', hd, hmove⟩ := hm
  by_cases hi : i = place
  · subst hi
    cases Option.some.inj (hd.symm.trans hc)
    obtain ⟨-, hdeed, -, hbefore, hafter⟩ := hmove.cases
    refine ⟨d', ?_, hdeed, iff_of_false hafter hbefore⟩
    exact List.getElem?_set_self (List.getElem?_eq_some_iff.mp hd).1
  · exact ⟨c, (List.getElem?_set_ne hi).trans hc, rfl, Iff.rfl⟩

/-- Only a wait on its handle concerns a child. -/
theorem Sound.frame (h : b.Sound log) {s : FamilyStep} {a : Answer} (hs : Step b s a b')
    {place : Nat} (hne : s ≠ .wait place) {c : Child} (hc : b.children[place]? = some c) :
    b'.children[place]? = some c := by
  cases s with
  | print t => cases hs; exact hc
  | fork deed =>
      cases hs
      exact (List.getElem?_append_left (List.getElem?_eq_some_iff.mp hc).1).trans hc
  | waitPid pid => cases hs
  | wait i =>
      have hi : i ≠ place := fun he => hne (congrArg FamilyStep.wait he)
      rcases h.wait_cases hs with ⟨-, -, rfl⟩ | ⟨d, -, ⟨-, -, rfl⟩ | ⟨-, -, rfl⟩⟩
      · exact hc
      · exact hc
      · exact (List.getElem?_set_ne hi).trans hc

/-- What `n` waits on the handle of a child hear: how the child ended, and from then on that
there is no child. -/
def told (deed : Deed) : Nat → List Answer
  | 0 => []
  | n + 1 => .waited (.status deed.death.status) ::
      List.replicate n (.waited (.error .noChildProcess))

/-- How often the handle at a place was waited for. -/
def waits (place : Nat) (log : Log) : Nat :=
  log.countP fun x => x.1 = .wait place

theorem waits_snoc_self (place : Nat) (log : Log) (a : Answer) :
    waits place (log ++ [(.wait place, a)]) = waits place log + 1 := by
  simp [waits]

theorem heard_snoc_self (place : Nat) (log : Log) (a : Answer) :
    heard place (log ++ [(.wait place, a)]) = heard place log ++ [a] := by
  simp [heard]

/-- Other steps do not count for a handle. -/
theorem snoc_of_ne {place : Nat} {s : FamilyStep} (hs : s ≠ .wait place) (log : Log) (a : Answer) :
    waits place (log ++ [(s, a)]) = waits place log ∧
      heard place (log ++ [(s, a)]) = heard place log := by
  simp [waits, heard, hs]

theorem told_succ (deed : Deed) (n : Nat) :
    told deed (n + 1 + 1) = told deed (n + 1) ++ [.waited (.error .noChildProcess)] := by
  rw [told, told, List.replicate_succ', List.cons_append]

/-- What is heard of a child from a moment on at which it is there and was not reaped. -/
theorem Run.heard (h : b.Sound log) {place : Nat} {c : Child} (hc : b.children[place]? = some c)
    (hstage : c.stage ≠ .reaped) {later : Log} (hr : Run b later b') :
    Brood.heard place later = told c.deed (waits place later) ∧
      ∃ c', b'.children[place]? = some c' ∧ c'.deed = c.deed ∧
        (c'.stage = .reaped ↔ waits place later ≠ 0) := by
  induction hr with
  | refl => exact ⟨rfl, c, hc, rfl, by simp [hstage, waits]⟩
  | own hr hm ih =>
      obtain ⟨hheard, d, hd, hdeed, hreaped⟩ := ih
      obtain ⟨d', hd', hdeed', hreaped'⟩ := hm.frame hd
      exact ⟨hheard, d', hd', hdeed'.trans hdeed, hreaped'.trans hreaped⟩
  | @step later m b' s a hr hs ih =>
      obtain ⟨hheard, d, hd, hdeed, hreaped⟩ := ih
      have hm : m.Sound (log ++ later) := h.run hr
      by_cases hs' : s = .wait place
      · subst hs'
        rw [waits_snoc_self, heard_snoc_self, hheard]
        rcases hm.wait_cases hs with ⟨hge, -, -⟩ | ⟨e, he, hcase⟩
        · exact absurd (List.getElem?_eq_some_iff.mp hd).1 (Nat.not_lt_of_le hge)
        cases Option.some.inj (he.symm.trans hd)
        rcases hcase with ⟨hgone, rfl, rfl⟩ | ⟨hended, rfl, rfl⟩
        · obtain ⟨n, hn⟩ := Nat.exists_eq_succ_of_ne_zero (hreaped.mp hgone)
          refine ⟨?_, d, hd, hdeed, iff_of_true hgone (Nat.succ_ne_zero _)⟩
          rw [hn]
          exact (told_succ c.deed n).symm
        · have hzero : waits place later = 0 := by
            by_contra hne
            rw [hreaped.mpr hne] at hended
            cases hended
          refine ⟨?_, d.reap, ?_, hdeed, iff_of_true rfl (Nat.succ_ne_zero _)⟩
          · rw [hzero, hdeed]
            rfl
          · exact List.getElem?_set_self (List.getElem?_eq_some_iff.mp hd).1
      · obtain ⟨hwaits, hsame⟩ := snoc_of_ne hs' later a
        rw [hwaits, hsame]
        exact ⟨hheard, d, hm.frame hs hs' hd, hdeed, hreaped⟩

/-- As long as a handle is not there, waits on it say so. -/
theorem Run.heard_early (hr : Run start log b) {place : Nat}
    (hplace : (Brood.deeds log).length ≤ place) :
    Brood.heard place log = List.replicate (waits place log) .noChildHandle := by
  induction hr with
  | refl => rfl
  | own _ _ ih => exact ih hplace
  | @step earlier m b' s a hr hs ih =>
      have hm : m.Sound earlier := sound_start.run hr
      rw [deeds_append, List.length_append] at hplace
      have hearlier := ih (by omega)
      by_cases hs' : s = .wait place
      · subst hs'
        rcases hm.wait_cases hs with ⟨-, rfl, -⟩ | ⟨c, hc, -⟩
        · rw [waits_snoc_self, heard_snoc_self, hearlier, List.replicate_succ']
        · have hlt := (List.getElem?_eq_some_iff.mp hc).1
          rw [hm.length_children] at hlt
          omega
      · obtain ⟨hwaits, hsame⟩ := snoc_of_ne hs' earlier a
        rw [hwaits, hsame, hearlier]

/-- A run goes through each of its steps. -/
theorem Run.split {before after : Log} {s : FamilyStep} {a : Answer}
    (hr : Run b (before ++ (s, a) :: after) b') :
    ∃ m m', Run b before m ∧ Step m s a m' ∧ Run m' after b' := by
  generalize hlog : before ++ (s, a) :: after = log at hr
  induction hr generalizing after with
  | refl => cases before <;> cases hlog
  | own _ hm ih =>
      obtain ⟨m, m', hbefore, hs, hafter⟩ := ih hlog
      exact ⟨m, m', hbefore, hs, hafter.own hm⟩
  | @step earlier m b' s' a' hr hs ih =>
      rcases List.eq_nil_or_concat after with rfl | ⟨after', x, rfl⟩
      · obtain ⟨rfl, hlast⟩ := List.append_inj' hlog rfl
        cases hlast
        exact ⟨m, b', hr, hs, .refl⟩
      · rw [List.concat_eq_append, ← List.cons_append, ← List.append_assoc] at hlog
        obtain ⟨hearlier, hlast⟩ := List.append_inj' hlog rfl
        cases hlast
        obtain ⟨n, n', hbefore, hfirst, hafter⟩ := ih hearlier
        rw [List.concat_eq_append]
        exact ⟨n, n', hbefore, hfirst, hafter.step hs⟩

/-- What is on the screen stays there. -/
theorem Run.screen_prefix {log : Log} (hr : Run b log b') : b.screen <+: b'.screen := by
  induction hr with
  | refl => exact List.prefix_rfl
  | own _ hm ih =>
      obtain ⟨place, c, c', hc, hmove⟩ := hm
      exact ih.trans (List.prefix_append _ _)
  | step _ hs ih =>
      refine ih.trans ?_
      cases hs with
      | print t => exact List.prefix_append _ _
      | fork => exact List.prefix_append _ _
      | noChildHandle => exact List.prefix_rfl
      | wait _ _ pid idle r hplace hidle hr => cases hr <;> exact List.prefix_rfl

end Brood

/-- A child has written part of its text, and all of it when it has ended. -/
theorem Child.Going.written {c : Child} (h : c.Going) :
    c.out.written <+: c.deed.text ∧
      (c.stage = .ended ∨ c.stage = .reaped → c.out.written = c.deed.text) := by
  unfold Going at h
  split at h
  · next hstage => simp [h, hstage, Stdout.empty]
  · next hstage => exact ⟨⟨_, h.1⟩, by simp [hstage]⟩
  · simp [h]
  · simp [h]

namespace Brood

/-- **The child of one fork.**  Its handle has the next place.  Waits on that place before
the fork have no child, the first one after it tells how this child ended, and it is reaped
then; and further ones find no child.  All that was printed before the fork is on the screen
before the child writes, and by the time it has ended the child has written its text. -/
theorem Run.fork (hr : Run start log b) {before after : Log} {deed : Deed} {a : Answer}
    (hlog : log = before ++ (.fork deed, a) :: after) :
    let k := (Brood.deeds before).length
    (∃ pid, a = .forked k (.parent pid)) ∧
      Brood.heard k log =
        List.replicate (waits k before) .noChildHandle ++ told deed (waits k after) ∧
      (∃ c, b.children[k]? = some c ∧ c.deed = deed ∧ (c.stage = .reaped ↔ waits k after ≠ 0) ∧
        writes (.child k) b.screen <+: deed.text ∧
        (c.stage = .ended ∨ c.stage = .reaped → writes (.child k) b.screen = deed.text)) ∧
      ∃ front back, b.screen = front ++ back ∧ writes .parent front = prints before ∧
        writes (.child k) front = [] := by
  intro k
  subst hlog
  obtain ⟨m, m', hbefore, hs, hafter⟩ := hr.split
  have hm : m.Sound before := sound_start.run hbefore
  have hm' : m'.Sound (before ++ [(.fork deed, a)]) := hm.step hs
  have hb : b.Sound (before ++ (.fork deed, a) :: after) := sound_start.run hr
  have hk : m.children.length = k := hm.length_children
  obtain ⟨pid, -, -, -, rfl, rfl⟩ := hs.fork_cases
  have hchild : (m.fork pid deed).children[k]? = some (.start pid deed []) := by
    rw [← hk]
    exact List.getElem?_concat_length
  have hstage : (Child.start pid deed []).stage ≠ .reaped := nofun
  obtain ⟨hheard, c, hc, hcdeed, hreaped⟩ := hafter.heard hm' hchild hstage
  obtain ⟨hpart, hwhole⟩ := (hb.going c (List.mem_of_getElem? hc)).written
  rw [← hb.child k c hc, hcdeed] at hpart hwhole
  have hplace : m.handles.length = k := by rw [hm.handles, List.length_map, hk]
  obtain ⟨back, hback⟩ := hafter.screen_prefix
  refine ⟨⟨pid, by rw [hplace]⟩, ?_, ⟨c, hc, hcdeed, hreaped, hpart, hwhole⟩,
    ⟨_, back, hback.symm, ?_, hm'.child k _ hchild⟩⟩
  · have hskip : ∀ x : Answer, Brood.heard k ((.fork deed, x) :: after) = Brood.heard k after :=
      fun x => by simp [Brood.heard]
    rw [heard_append, hskip, hheard, hbefore.heard_early (Nat.le_refl _)]
    rfl
  · rw [hm'.parent]
    exact hm.printed

end Brood

end Offspring
