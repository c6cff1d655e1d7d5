import Offspring.ForkProgram.Pair
import Offspring.Proofs.ForkProgram.Run
/-!
# What both processes of the fork program do

`Going` says what a process has done by the time it comes to a place, and a move of its own
keeps that (`Going.own`).  `Sound` adds what ties the two processes: the parent ends only
after the child, and as the death of the child tells.  Every move keeps it (`Sound.step`), so
it holds of every pair that is reached (`Sound.reach`); a kill only settles how the child
ends (`Sound.kill`).
-/

namespace Offspring

theorem Report.decode_exited {raw code : Int} (hraw : raw = code * 256)
    (hcode : 0 ≤ code ∧ code < 256) : decode raw = .ok (.exited code) := by
  have hlow : raw % 128 = 0 := by omega
  have hsecond : raw / 256 % 256 = code := by omega
  simp only [decode, hlow, hsecond, if_true]

/-- The raw status of a death by a known signal, with a core dump or without. -/
theorem Report.decode_killed {raw signal : Int} (hraw : raw % 128 = signal)
    (hsignal : 1 ≤ signal ∧ signal ≤ 31) : decode raw = .ok (.killed signal) := by
  have hknown : isKnownSignal signal = true := by simpa [isKnownSignal] using hsignal
  have hpos : signal ≠ 0 := by omega
  have hlt : signal < 127 := by omega
  simp only [decode, hraw, hknown, if_neg hpos, if_pos hlt, if_true]

/-- What the parent of a process learns of its death. -/
def Death.status : Death → ExitStatus
  | .exit status => ⟨exitByte status⟩
  | .signal number => .ofSignal number

/-- Whether a death is an exit, or by a signal that is known. -/
def Death.isKnown : Death → Bool
  | .exit _ => true
  | .signal number => Report.isKnownSignal number

namespace ForkProgram

/-- A status that tells of a death is read as that death. -/
theorem Tells.decode {d : Death} {raw : Int} (h : Tells d raw) (hd : d.isKnown = true) :
    Report.decode raw = .ok (match d with
      | .exit status => .exited (exitByte status)
      | .signal number => .killed number) := by
  cases h with
  | exit status => exact Report.decode_exited rfl (by unfold exitByte; omega)
  | signal number =>
      have hknown : 1 ≤ number ∧ number ≤ 31 := by
        simpa [Death.isKnown, Report.isKnownSignal] using hd
      exact Report.decode_killed (by simp only [Death.raw]; omega) hknown
  | dumped number =>
      have hknown : 1 ≤ number ∧ number ≤ 31 := by
        simpa [Death.isKnown, Report.isKnownSignal] using hd
      exact Report.decode_killed (by simp only [Death.raw]; omega) hknown

theorem Tells.judge {d : Death} {raw : Int} (h : Tells d raw) (hd : d.isKnown = true)
    {pid : Pid} (hpid : pid ≠ 0) :
    (WaitReply.returned pid raw).judge pid = .ends (.status d.status) := by
  simp only [WaitReply.judge, if_neg hpid, h.decode hd]
  cases d <;> simp [Verdict.ended, Death.status]

/-- A reply that tells of no end makes the parent wait again. -/
theorem Undecided.judge {r : WaitReply} (h : Undecided r) (pid : Pid) : r.judge pid = .again := by
  rw [WaitReply.judge_eq_again_iff]
  cases h <;> simp_all [WaitReply.isIdle]

namespace Life

variable {secs : Int} {l l' : Life}

def line (secs : Int) (l : Life) : Text :=
  roleLine l.handle.role secs

/-- What a process has done by the time it comes to a place. -/
def Going (secs : Int) (l : Life) : Prop :=
  match l.place with
  | .printing => l.out = .empty ∧ l.complaint = []
  | .sleeping left =>
    l.out = ⟨l.line secs, []⟩ ∧ l.complaint = [] ∧ left.nanos = 0 ∧ 0 < left.secs ∧
      left.secs ≤ secs.toNat
  | .waiting => l.out = ⟨l.line secs, []⟩ ∧ l.complaint = [] ∧ l.handle ≠ .child
  | .finished f =>
    l.out = ⟨l.line secs, []⟩ ∧ (l.handle = .child → f = .exited success ∧ l.complaint = [])
  | .killed _ => (l.out = .empty ∨ l.out = ⟨l.line secs, []⟩) ∧ l.complaint = []

theorem going_start (h : Handle) : (start h).Going secs := ⟨rfl, rfl⟩

theorem Going.out (h : l.Going secs) : l.out = .empty ∨ l.out = ⟨l.line secs, []⟩ := by
  unfold Going at h
  split at h
  · exact .inl h.1
  · exact .inr h.1
  · exact .inr h.1
  · exact .inr h.1
  · exact h.1

theorem flush_line (t : Text) : Stdout.flush ⟨t, []⟩ = ⟨t, []⟩ := by
  simp [Stdout.flush, Stdout.printed]

theorem going_awake (secs : Int) (l : Life) (hout : l.out = ⟨l.line secs, []⟩)
    (hcomplaint : l.complaint = []) :
    l.awake.Going secs ∧ l.awake.handle = l.handle ∧ l.awake.out = l.out := by
  unfold awake
  split
  · next pid hhandle => exact ⟨⟨hout, hcomplaint, by simp [hhandle]⟩, rfl, rfl⟩
  · have hflush : l.out.flush = l.out := by rw [hout, flush_line]
    exact ⟨⟨hflush.trans hout, fun _ => ⟨rfl, hcomplaint⟩⟩, rfl, hflush⟩

theorem going_rest (secs : Int) (l : Life) (left : Duration)
    (hout : l.out = ⟨l.line secs, []⟩) (hcomplaint : l.complaint = [])
    (hnanos : left.nanos = 0) (hleft : left.secs ≤ secs.toNat) :
    (l.rest left).Going secs ∧ (l.rest left).handle = l.handle ∧ (l.rest left).out = l.out := by
  unfold rest
  split
  · exact going_awake secs l hout hcomplaint
  · next hzero =>
    have hsecs : left.secs ≠ 0 := by simpa [Duration.isZero, hnanos] using hzero
    exact ⟨⟨hout, hcomplaint, hnanos, by omega, hleft⟩, rfl, rfl⟩

theorem going_sleep (secs : Int) (l : Life) {left : Duration} (n : Nat)
    (hout : l.out = ⟨l.line secs, []⟩) (hcomplaint : l.complaint = [])
    (hnanos : left.nanos = 0) (hleft : left.secs ≤ secs.toNat) :
    (l.sleep left n).Going secs ∧ (l.sleep left n).handle = l.handle ∧
      (l.sleep left n).out = l.out := by
  unfold sleep
  dsimp only
  split
  · have hless : (left.after n).secs ≤ secs.toNat := Nat.le_trans (Nat.sub_le _ _) hleft
    exact going_rest secs _ _ hout hcomplaint hnanos hless
  · exact going_awake secs _ hout hcomplaint

/-- A move of its own keeps a process going, and either writes its line or nothing. -/
theorem Going.own (h : l.Going secs) (hown : Pair.Own secs l l') :
    l'.Going secs ∧ l'.handle = l.handle ∧
      (l'.out = l.out ∨ (l.out = .empty ∧ l'.out = ⟨l.line secs, []⟩)) := by
  cases hown with
  | print hplace =>
      simp only [Going, hplace] at h
      obtain ⟨hout, hcomplaint⟩ := h
      have hline : l.out.print (roleLine l.handle.role secs) = ⟨l.line secs, []⟩ := by
        rw [hout, line, roleLine_eq, Stdout.print_of_ended]
        rfl
      obtain ⟨hgoing, hhandle, hwritten⟩ :=
        going_rest secs { l with out := l.out.print (roleLine l.handle.role secs) } (duration secs)
          hline hcomplaint rfl (Nat.le_refl _)
      exact ⟨hgoing, hhandle, .inr ⟨hout, hwritten.trans hline⟩⟩
  | sleep left n hplace =>
      simp only [Going, hplace] at h
      obtain ⟨hout, hcomplaint, hnanos, _, hleft⟩ := h
      obtain ⟨hgoing, hhandle, hwritten⟩ := going_sleep secs l n hout hcomplaint hnanos hleft
      exact ⟨hgoing, hhandle, .inl hwritten⟩

/-- A reply to a wait that tells of no end is one call more, and the parent waits again. -/
theorem receive_of_undecided {r : WaitReply} (hr : Undecided r) (name : Text) (pid : Pid)
    (l : Life) :
    l.receive name pid r = { l.called (.waitpid pid) with waits := l.waits ++ [r] } := by
  simp only [receive, hr.judge pid]

/-- Where a process is once it has slept. -/
def placeAfter : Handle → Place
  | .parent _ => .waiting
  | .child => .finished (.exited success)

theorem place_awake (l : Life) : l.awake.place = placeAfter l.handle := by
  unfold awake placeAfter
  cases l.handle <;> rfl

theorem place_rest (left : Duration) (l : Life) :
    (l.rest left).place = .sleeping left ∨ (l.rest left).place = placeAfter l.handle := by
  unfold rest
  split
  · exact .inr l.place_awake
  · exact .inl rfl

theorem place_sleep_of_lt {left : Duration} {n : Nat} (hn : n < left.secs) (l : Life) :
    (l.sleep left n).place = .sleeping (left.after n) := by
  simp only [sleep, if_pos hn, rest, Duration.isZero_after hn, Bool.false_eq_true, if_false]

theorem place_sleep_of_late {left : Duration} {n : Nat} (hn : left.secs ≤ n) (l : Life) :
    (l.sleep left n).place = placeAfter l.handle := by
  simp only [sleep, if_neg (Nat.not_lt.mpr hn), place_awake]
  rfl

/-- Only a process that has not slept enough moves on its own, and it comes to a sleep or
to the end of all sleep. -/
theorem place_own (hown : Pair.Own secs l l') :
    (l.place = .printing ∨ ∃ left, l.place = .sleeping left) ∧
      ((∃ left, l'.place = .sleeping left) ∨ l'.place = placeAfter l.handle) := by
  cases hown with
  | print hplace => exact ⟨.inl hplace, (place_rest _ _).imp_left fun h => ⟨_, h⟩⟩
  | sleep left n hplace =>
      rcases Nat.lt_or_ge n left.secs with hn | hn
      · exact ⟨.inr ⟨left, hplace⟩, .inl ⟨_, place_sleep_of_lt hn l⟩⟩
      · exact ⟨.inr ⟨left, hplace⟩, .inr (place_sleep_of_late hn l)⟩

/-- Neither before such a move nor after it is a process killed; it has not ended before,
and the parent has not ended after. -/
theorem ends_own (hown : Pair.Own secs l l') :
    l.death? = none ∧ (∀ f, l.place ≠ .finished f) ∧ (∀ s, l.place ≠ .killed s) ∧
      (∀ s, l'.place ≠ .killed s) ∧ (l.handle ≠ .child → ∀ f, l'.place ≠ .finished f) := by
  obtain ⟨hbefore, hafter⟩ := place_own hown
  have hdone : placeAfter l.handle = .waiting ∨
      (l.handle = .child ∧ placeAfter l.handle = .finished (.exited success)) := by
    cases l.handle <;> simp [placeAfter]
  refine ⟨?_, ?_, ?_, ?_, ?_⟩
  · rcases hbefore with h | ⟨left, h⟩ <;> simp [death?, h]
  · rcases hbefore with h | ⟨left, h⟩ <;> simp [h]
  · rcases hbefore with h | ⟨left, h⟩ <;> simp [h]
  · rcases hafter with ⟨left, h⟩ | h
    · simp [h]
    · rcases hdone with hd | ⟨_, hd⟩ <;> simp [h, hd]
  · intro hparent
    rcases hafter with ⟨left, h⟩ | h
    · simp [h]
    · rcases hdone with hd | ⟨hchild, _⟩
      · simp [h, hd]
      · exact absurd hchild hparent

end Life

namespace Pair

variable {name : Text} {secs : Int} {pid : Pid} {killer : Option Int} {p q : Pair}

/-- How the child ends, when it is killed and when it is not. -/
def fate : Option Int → Death
  | none => .exit success
  | some signal => .signal signal

/-- What holds of a pair all along; `killer` is the signal that has killed the child, if one
has. -/
structure Sound (name : Text) (secs : Int) (pid : Pid) (killer : Option Int) (p : Pair) :
    Prop where
  parent : p.parent.Going secs
  child : p.child.Going secs
  parent_handle : p.parent.handle = .parent pid
  child_handle : p.child.handle = .child
  parent_alive : ∀ s, p.parent.place ≠ .killed s
  child_killed : ∀ s, p.child.place = .killed s ↔ killer = some s
  reaped : p.reaped = true ↔ ∃ f, p.parent.place = .finished f
  /-- The parent ends as the death of the child tells. -/
  parent_end : ∀ f, p.parent.place = .finished f → p.child.death? = some (fate killer) ∧
    (f, p.parent.complaint) = conclude name pid (.status (fate killer).status)
  screen : p.screen = p.parent.out.written ++ p.child.out.written ∨
    p.screen = p.child.out.written ++ p.parent.out.written

theorem sound_start : Sound name secs pid none (start pid) where
  parent := Life.going_start _
  child := Life.going_start _
  parent_handle := rfl
  child_handle := rfl
  parent_alive := nofun
  child_killed := by simp [start, Life.start]
  reaped := by simp [start, Life.start]
  parent_end := nofun
  screen := .inl rfl

/-- A child that has ended by itself has ended well, and was not killed. -/
theorem Sound.child_finish (h : Sound name secs pid killer p) {f : Finish}
    (hf : p.child.place = .finished f) :
    killer = none ∧ f = .exited success ∧ p.child.complaint = [] := by
  have hgoing := h.child
  simp only [Life.Going, hf] at hgoing
  refine ⟨?_, hgoing.2 h.child_handle⟩
  cases killer with
  | none => rfl
  | some s =>
      rw [(h.child_killed s).mpr rfl] at hf
      cases hf

/-- The child dies in the way that is its fate. -/
theorem Sound.death (h : Sound name secs pid killer p) {d : Death}
    (hd : p.child.death? = some d) : d = fate killer := by
  unfold Life.death? at hd
  split at hd
  · next status hplace =>
    obtain ⟨rfl, hstatus, _⟩ := h.child_finish hplace
    cases hstatus
    exact (Option.some.inj hd).symm
  · next s hplace =>
    rw [(h.child_killed s).mp hplace]
    exact (Option.some.inj hd).symm
  · cases hd

/-- A process that moves on writes what it had not written. -/
theorem screen_move {screen own own' other : Text}
    (h : screen = own ++ other ∨ screen = other ++ own) (hmove : own' = own ∨ own = []) :
    screen ++ own'.drop own.length = own' ++ other ∨
      screen ++ own'.drop own.length = other ++ own' := by
  rcases hmove with rfl | rfl
  · simpa using h
  · right
    simpa using h

theorem written_move {l l' : Life} {t : Text}
    (h : l'.out = l.out ∨ (l.out = .empty ∧ l'.out = ⟨t, []⟩)) :
    l'.out.written = l.out.written ∨ l.out.written = [] := by
  rcases h with h | ⟨h, _⟩
  · exact .inl (by rw [h])
  · exact .inr (by rw [h]; rfl)

theorem Sound.setParent (h : Sound name secs pid killer p) {l : Life}
    (hown : Own secs p.parent l) : Sound name secs pid killer (p.setParent l) := by
  obtain ⟨hgoing, hhandle, hout⟩ := h.parent.own hown
  obtain ⟨_, hbefore, _, halive, hafter⟩ := Life.ends_own hown
  have hopen : ∀ f, l.place ≠ .finished f := hafter (by simp [h.parent_handle])
  exact { h with
    parent := hgoing
    parent_handle := hhandle.trans h.parent_handle
    parent_alive := halive
    reaped := by
      constructor
      · intro hr
        obtain ⟨f, hf⟩ := h.reaped.mp hr
        exact absurd hf (hbefore f)
      · rintro ⟨f, hf⟩
        exact absurd hf (hopen f)
    parent_end := fun f hf => absurd hf (hopen f)
    screen := screen_move h.screen (written_move hout) }

theorem Sound.setChild (h : Sound name secs pid killer p) {l : Life}
    (hown : Own secs p.child l) : Sound name secs pid killer (p.setChild l) := by
  obtain ⟨hgoing, hhandle, hout⟩ := h.child.own hown
  obtain ⟨hdeath, _, hbefore, hafter, _⟩ := Life.ends_own hown
  exact { h with
    child := hgoing
    child_handle := hhandle.trans h.child_handle
    child_killed := by
      intro s
      constructor
      · intro hs
        exact absurd hs (hafter s)
      · intro hs
        exact absurd ((h.child_killed s).mpr hs) (hbefore s)
    parent_end := by
      -- the child was alive, so the parent is not at its end
      intro f hf
      obtain ⟨hd, _⟩ := h.parent_end f hf
      rw [hdeath] at hd
      cases hd
    screen := (screen_move h.screen.symm (written_move hout)).symm }

/-- The parent learns how the child has died, and ends as that tells. -/
theorem Sound.reap (h : Sound name secs pid killer p) (hpid : pid ≠ 0)
    (hknown : (fate killer).isKnown = true) {d : Death} {raw : Int}
    (hplace : p.parent.place = .waiting) (hd : p.child.death? = some d) (hraw : Tells d raw) :
    Sound name secs pid killer
      { p.setParent (p.parent.receive name pid (.returned pid raw)) with reaped := true } := by
  obtain rfl := h.death hd
  have hreceive : p.parent.receive name pid (.returned pid raw) =
      Life.finish (conclude name pid (.status (fate killer).status)).1
        (conclude name pid (.status (fate killer).status)).2
        { p.parent.called (.waitpid pid) with
          waits := p.parent.waits ++ [.returned pid raw] } := by
    simp only [Life.receive, hraw.judge hknown hpid]
  have hgoing := h.parent
  simp only [Life.Going, hplace] at hgoing
  obtain ⟨hout, _, hhandle⟩ := hgoing
  have hflush : p.parent.out.flush = p.parent.out := by rw [hout, Life.flush_line]
  rw [hreceive]
  exact { h with
    parent := ⟨hflush.trans hout, fun hc => absurd hc hhandle⟩
    parent_alive := nofun
    reaped := ⟨fun _ => ⟨_, rfl⟩, fun _ => rfl⟩
    parent_end := by
      intro f hf
      cases hf
      exact ⟨hd, rfl⟩
    screen := screen_move h.screen (.inl (congrArg Stdout.written hflush)) }

theorem Sound.step (h : Sound name secs pid killer p) (hpid : pid ≠ 0)
    (hknown : (fate killer).isKnown = true) (hs : Step name secs pid p q) :
    Sound name secs pid killer q := by
  cases hs with
  | parent l hown => exact h.setParent hown
  | child l hown => exact h.setChild hown
  | undecided r hplace hr =>
      rw [Life.receive_of_undecided hr]
      exact { h with screen := screen_move h.screen (.inl rfl) }
  | reap d raw hplace hd hraw hr => exact h.reap hpid hknown hplace hd hraw

theorem Sound.reach (h : Sound name secs pid killer p) (hpid : pid ≠ 0)
    (hknown : (fate killer).isKnown = true) (hr : Reach name secs pid p q) :
    Sound name secs pid killer q := by
  induction hr with
  | refl => exact h
  | step _ hs ih => exact ih.step hpid hknown hs

/-- A kill, while the child is alive, settles its fate. -/
theorem Sound.kill (h : Sound name secs pid none p) {signal : Int} (hk : Kill signal p q) :
    Sound name secs pid (some signal) q := by
  cases hk with
  | child halive =>
      -- a parent that had ended would have learned of a death, and there was none
      have hopen : ∀ f, p.parent.place ≠ .finished f := by
        intro f hf
        obtain ⟨hd, _⟩ := h.parent_end f hf
        rw [halive] at hd
        cases hd
      have hquiet : p.child.complaint = [] := by
        have hgoing := h.child
        have hchild := h.child_handle
        unfold Life.Going at hgoing
        split at hgoing <;> simp_all
      exact { h with
        child := ⟨h.child.out, hquiet⟩
        child_killed := by simp
        parent_end := fun f hf => absurd hf (hopen f) }

theorem Reach.trans {r : Pair} (hpq : Reach name secs pid p q) (hqr : Reach name secs pid q r) :
    Reach name secs pid p r := by
  induction hqr with
  | refl => exact hpq
  | step _ hs ih => exact .step ih hs

/-- A parent that waits has not learned of the end of the child. -/
theorem Sound.not_reaped (h : Sound name secs pid killer p) (hwaiting : p.parent.place = .waiting) :
    p.reaped = false := by
  rw [Bool.eq_false_iff]
  intro hreaped
  obtain ⟨f, hf⟩ := h.reaped.mp hreaped
  rw [hwaiting] at hf
  cases hf

theorem Sound.death_of_finish (h : Sound name secs pid killer p) {f : Finish}
    (hf : p.child.place = .finished f) : p.child.death? = some (fate killer) := by
  obtain ⟨rfl, rfl, _⟩ := h.child_finish hf
  simp [Life.death?, hf, fate]

end Pair

end ForkProgram

end Offspring
