import Offspring.Capture.Vigil
import Offspring.Proofs.Capture.Log
import Offspring.Proofs.Capture.Watch
/-!
# What waiting does to a capture

A waiter looks at the content and can do one thing to it: spoil it, by a check that cannot
cut it.  That can only be its first check, since a content that grows keeps all the places
where it can be cut (`Vigil.check_again`).  As long as no waiter does it, a vigil leaves the
capture that its readers alone would leave (`Vigil.capture_run_of_clean`), and who did it is
known by its panic (`Vigil.Blamed`).  Afterwards the waiters change nothing more, and every
check panics; a reader that is still at work fails, or passes on one more piece and panics
where it should keep it (`Reader.Doomed`).
-/

namespace Offspring

/-- A text can be cut at a byte just where it falls into two texts. -/
theorem Text.fromByte?_eq_some_iff {t back : Text} {n : Nat} :
    t.fromByte? n = some back ↔ ∃ front, t = front ++ back ∧ front.size = n := by
  induction t generalizing n with
  | nil =>
      cases n with
      | zero =>
          rw [fromByte?_zero]
          constructor
          · intro h
            exact ⟨[], Option.some.inj h, rfl⟩
          · rintro ⟨front, h, _⟩
            rw [(List.append_eq_nil_iff.mp h.symm).2]
      | succ n =>
          constructor
          · exact nofun
          · rintro ⟨front, h, hsize⟩
            rw [(List.append_eq_nil_iff.mp h.symm).1] at hsize
            cases hsize
  | cons c t ih =>
      cases n with
      | zero =>
          rw [fromByte?_zero]
          constructor
          · intro h
            exact ⟨[], Option.some.inj h, rfl⟩
          · rintro ⟨front, h, hsize⟩
            cases front with
            | nil => rw [h, List.nil_append]
            | cons d front =>
                have hpos := d.utf8Size_pos
                rw [size_cons] at hsize
                omega
      | succ n =>
          rw [fromByte?]
          constructor
          · intro h
            split at h
            · next hc =>
              obtain ⟨front, ht, hsize⟩ := ih.mp h
              refine ⟨c :: front, by rw [ht]; rfl, ?_⟩
              rw [size_cons]
              omega
            · cases h
          · rintro ⟨front, h, hsize⟩
            cases front with
            | nil => cases hsize
            | cons d front =>
                obtain ⟨rfl, ht⟩ := List.cons.inj h
                rw [size_cons] at hsize
                rw [if_pos (by omega)]
                exact ih.mpr ⟨front, ht, by omega⟩

/-- Otherwise the byte is beyond the text or inside a character. -/
theorem Text.fromByte?_eq_none_iff {t : Text} {n : Nat} :
    t.fromByte? n = none ↔ ∀ front back, t = front ++ back → front.size ≠ n := by
  rw [Option.eq_none_iff_forall_not_mem]
  constructor
  · intro h front back ht hsize
    exact h back (fromByte?_eq_some_iff.mpr ⟨front, ht, hsize⟩)
  · intro h back hback
    obtain ⟨front, ht, hsize⟩ := fromByte?_eq_some_iff.mp hback
    exact h front back ht hsize

namespace Waiter

variable {w : Waiter} {r : Reader}

theorem step_of_spoilt (w : Waiter) (h : r.spoilt = true) : (w.step r).2 = r := by
  rcases w.step_reader r with hr | hr
  · exact hr
  · rw [hr, ← h]

/-- A check of content that is not spoilt panics just where it cannot cut it. -/
theorem check_panics_iff {seen : Nat} (hs : w.stage = .checking seen) (hr : r.spoilt = false) :
    (w.step r).1.stage = .panicked ↔ r.content.fromByte? w.start = none := by
  cases ht : r.content.fromByte? w.start with
  | none => simp [step, hs, check, hr, ht]
  | some t => cases hexp : w.expects t <;> simp [step, hs, check, hr, ht, hexp]

/-- A move that spoils the content is a check that panics. -/
theorem step_spoils (hr : r.spoilt = false) (h : (w.step r).2.spoilt = true) :
    (∃ seen, w.stage = .checking seen) ∧ (w.step r).1.stage = .panicked ∧
      (w.step r).2 = { r with spoilt := true } := by
  cases hs : w.stage with
  | checking seen =>
      cases ht : r.content.fromByte? w.start with
      | none => simp [step, hs, check, hr, ht]
      | some t => simp [step, hs, check, hr, ht] at h
  | awaiting seen =>
      simp only [step, hs] at h
      repeat' split at h
      all_goals simp [hr] at h
  | marking | met | closed | panicked => simp [step, hs, hr] at h

/-- A waiter that comes to panic leaves the content spoilt. -/
theorem spoilt_of_panics (hw : w.stage ≠ .panicked) (h : (w.step r).1.stage = .panicked) :
    (w.step r).2.spoilt = true := by
  cases hs : w.stage with
  | checking seen =>
      cases hr : r.spoilt with
      | true => rw [step_of_spoilt w hr, hr]
      | false =>
          have ht := (check_panics_iff hs hr).mp h
          simp [step, hs, check, hr, ht]
  | awaiting seen =>
      simp only [step, hs] at h
      repeat' split at h
      all_goals simp_all
  | panicked => exact absurd hs hw
  | marking | met | closed => simp [step, hs] at h

end Waiter

namespace Reader

variable {r : Reader} {taken : Bytes} {kept : Text} {pieces : List Text}

/-- How a reader of spoilt content gives up: it fails with nothing more shown or logged than
was kept, or panics with one piece shown and logged that it did not keep. -/
def GaveUp (r : Reader) (f : Fate) (kept : Text) (pieces : List Text) : Prop :=
  (f = .failed ∧ pieces = [] ∧ r.shown = kept ∧ r.logged = kept) ∨
    (f = .panicked ∧ ∃ t, pieces = [t] ∧ r.shown = kept ++ t ∧ r.logged = kept ++ t)

/-- What a reader does whose content was spoilt while it was at work, told from what it had
kept by then and the pieces that it had to pass on since. -/
def Doomed (r : Reader) (kept : Text) (pieces : List Text) : Prop :=
  r.spoilt = true ∧ r.content = kept ∧
    match r.stage with
    | .reading => pieces = [] ∧ r.shown = kept ∧ r.logged = kept
    | .showing t _ => pieces = [t] ∧ r.shown = kept ∧ r.logged = kept
    | .logging t _ => pieces = [t] ∧ r.shown = kept ++ t ∧ r.logged = kept
    | .keeping t _ => pieces = [t] ∧ r.shown = kept ++ t ∧ r.logged = kept ++ t
    | .leaving f => r.GaveUp f kept pieces
    | .stopped f => r.GaveUp f kept pieces

theorem Sound.doomed (h : r.Sound taken)
    (hwork : ∀ f, r.stage ≠ .leaving f ∧ r.stage ≠ .stopped f) :
    ({ r with spoilt := true } : Reader).Doomed r.content r.stage.piece?.toList := by
  have hcalm : r.stage.fate? ≠ some .panicked := by
    cases hs : r.stage with
    | leaving f => exact absurd hs (hwork f).1
    | stopped f => exact absurd hs (hwork f).2
    | reading | showing | logging | keeping => exact nofun
  have hshown := h.shown.trans (h.kept hcalm).symm
  have hlogged := h.logged.trans (h.kept hcalm).symm
  refine ⟨rfl, rfl, ?_⟩
  cases hs : r.stage with
  | leaving f => exact absurd hs (hwork f).1
  | stopped f => exact absurd hs (hwork f).2
  | reading | showing | logging | keeping =>
      simpa [hs, Stage.piece?, Stage.unshown, Stage.unlogged, Stage.unkept]
        using And.intro hshown hlogged

/-- A doomed reader goes on to the end of its iteration and gives up. -/
theorem Doomed.follow (h : r.Doomed kept pieces) (e : CaptureEvent) :
    (r.follow e).Doomed kept (pieces ++ (r.brings? e).toList) := by
  obtain ⟨hspoilt, hcontent, hstage⟩ := h
  cases e with
  | read c bytes =>
      by_cases hr : r.stage = .reading
      · simp only [hr] at hstage
        obtain ⟨rfl, hshown, hlogged⟩ := hstage
        cases hd : decodeRead r.tail bytes with
        | piece t tail =>
            simp [Doomed, Reader.follow, Reader.take, brings?, hr, hd, hspoilt, hcontent, hshown,
              hlogged]
        | illFormed =>
            simp [Doomed, GaveUp, Reader.follow, Reader.take, brings?, hr, hd, hspoilt, hcontent,
              hshown, hlogged]
      · have hnone : r.brings? (.read c bytes) = none := by
          cases hs : r.stage <;> simp_all [brings?]
        rw [Reader.follow, take_of_not_reading hr, hnone, Option.toList_none, List.append_nil]
        exact ⟨hspoilt, hcontent, hstage⟩
  | move c =>
      rw [brings?, Option.toList_none, List.append_nil]
      cases hs : r.stage with
      | reading | showing | logging | keeping | leaving | stopped =>
          simp_all [Doomed, GaveUp, Reader.follow, Reader.move]

theorem Doomed.run (h : r.Doomed kept pieces) (events : List CaptureEvent) :
    (events.foldl Reader.follow r).Doomed kept (pieces ++ r.pieces events) := by
  induction events generalizing r pieces with
  | nil => simpa [Reader.pieces] using h
  | cons e events ih =>
      have hrest := ih (h.follow e)
      rwa [List.append_assoc] at hrest

theorem Doomed.gaveUp (h : r.Doomed kept pieces) {f : Fate} (hf : r.fate? = some f) :
    r.GaveUp f kept pieces := by
  obtain ⟨_, _, hstage⟩ := h
  unfold fate? at hf
  split at hf
  · next g hg =>
    obtain rfl := Option.some.inj hf
    simpa [hg] using hstage
  · cases hf

/-- A reader that has nothing more to do stays as it is, but for its leaving. -/
theorem follow_of_leaving {f : Fate} (h : r.stage = .leaving f ∨ r.stage = .stopped f)
    (events : List CaptureEvent) :
    let r' := events.foldl Reader.follow r
    (r'.stage = .leaving f ∨ r'.stage = .stopped f) ∧ r'.content = r.content ∧
      r'.shown = r.shown ∧ r'.logged = r.logged := by
  induction events generalizing r with
  | nil => exact ⟨h, rfl, rfl, rfl⟩
  | cons e events ih =>
      have hstep : ((r.follow e).stage = .leaving f ∨ (r.follow e).stage = .stopped f) ∧
          (r.follow e).content = r.content ∧ (r.follow e).shown = r.shown ∧
          (r.follow e).logged = r.logged := by
        cases e with
        | read c bytes =>
            have hr : r.stage ≠ .reading := by rcases h with h | h <;> simp [h]
            rw [Reader.follow, take_of_not_reading hr]
            exact ⟨h, rfl, rfl, rfl⟩
        | move c => rcases h with h | h <;> simp [Reader.follow, move, h]
      obtain ⟨hstage, hcontent, hshown, hlogged⟩ := ih hstep.1
      exact ⟨hstage, hcontent.trans hstep.2.1, hshown.trans hstep.2.2.1,
        hlogged.trans hstep.2.2.2⟩

theorem content_prefix_follow (r : Reader) (e : CaptureEvent) :
    r.content <+: (r.follow e).content := by
  cases e with
  | read c bytes => exact (r.content_take bytes) ▸ List.prefix_rfl
  | move c => exact r.content_prefix_move

end Reader

namespace Capture

/-- What an event makes of the reader of standard output. -/
theorem out_step (s : Capture) (e : CaptureEvent) :
    (s.step e).out = if e.channel = .out then s.out.follow e else s.out :=
  s.reader_step e .out

/-- Moves of the readers do not spoil the content, nor do they mend it. -/
theorem spoilt_run (s : Capture) (events : List CaptureEvent) :
    (s.run events).out.spoilt = s.out.spoilt := by
  induction events generalizing s with
  | nil => rfl
  | cons e events ih =>
      have hstep : (s.step e).out.spoilt = s.out.spoilt := by
        rw [out_step]
        split
        · exact Reader.spoilt_follow _ _
        · rfl
      rw [run_cons, ih, hstep]

end Capture

namespace Vigil

/-- The moves of the readers in a schedule. -/
def readerEvents (events : List VigilEvent) : List CaptureEvent :=
  events.filterMap fun
    | .reader e => some e
    | _ => none

variable {v : Vigil} {w : Waiter} {i : Nat}

theorem run_append (v : Vigil) (events more : List VigilEvent) :
    v.run (events ++ more) = (v.run events).run more :=
  List.foldl_append

theorem run_cons (v : Vigil) (e : VigilEvent) (events : List VigilEvent) :
    v.run (e :: events) = (v.step e).run events := rfl

theorem step_wait (h : v.waiters[i]? = some w) :
    v.step (.wait i) = ⟨{ v.capture with out := (w.step v.capture.out).2 },
      v.waiters.set i (w.step v.capture.out).1⟩ := by
  simp [step, h]

/-- Whether an event is a move of a waiter. -/
def moves (i : Nat) : VigilEvent → Bool
  | .wait j => j = i
  | _ => false

/-- A waiter keeps its place, and only its own moves do anything to it. -/
theorem waiter_step (h : v.waiters[i]? = some w) (e : VigilEvent) :
    (v.step e).waiters[i]? = some (if moves i e then (w.step v.capture.out).1 else w) := by
  obtain ⟨hi, _⟩ := List.getElem?_eq_some_iff.mp h
  cases e with
  | reader e => exact h
  | call start expects => exact (List.getElem?_append_left hi).trans h
  | wait j =>
      by_cases hj : j = i
      · subst hj
        rw [step_wait h]
        simpa [moves] using List.getElem?_set_self hi
      · cases hu : v.waiters[j]? with
        | none => simpa [step, hu, moves, hj] using h
        | some u =>
            rw [step_wait hu, if_neg (by simpa [moves] using hj)]
            exact (List.getElem?_set_ne hj).trans h

theorem waiter_run (h : v.waiters[i]? = some w) (events : List VigilEvent) :
    ∃ w', (v.run events).waiters[i]? = some w' ∧ w'.start = w.start := by
  induction events generalizing v w with
  | nil => exact ⟨w, h, rfl⟩
  | cons e events ih =>
      obtain ⟨w', hw', hstart⟩ := ih (waiter_step h e)
      refine ⟨w', hw', ?_⟩
      rw [hstart]
      split
      · exact (w.start_step _).1
      · rfl

/-- An event is a move of a reader or leaves the capture alone, unless it spoils the
content. -/
theorem capture_step (v : Vigil) (e : VigilEvent) :
    (v.step e).capture = v.capture.run (readerEvents [e]) ∨
      (v.capture.out.spoilt = false ∧
        (v.step e).capture = { v.capture with out := { v.capture.out with spoilt := true } }) := by
  cases e with
  | reader e => exact .inl rfl
  | call start expects => exact .inl rfl
  | wait i =>
      cases hw : v.waiters[i]? with
      | none => exact .inl (by simp [step, hw, readerEvents, Capture.run])
      | some w =>
          rw [step_wait hw]
          cases hr : v.capture.out.spoilt with
          | true => exact .inl (by rw [w.step_of_spoilt hr]; rfl)
          | false =>
              rcases w.step_reader v.capture.out with hsame | hspoils
              · exact .inl (by rw [hsame]; rfl)
              · exact .inr ⟨rfl, by rw [hspoils]⟩

theorem run_readerEvents_cons (s : Capture) (e : VigilEvent) (events : List VigilEvent) :
    s.run (readerEvents (e :: events)) = (s.run (readerEvents [e])).run (readerEvents events) := by
  cases e <;> rfl

/-- Spoilt content stays spoilt, and the waiters change nothing more. -/
theorem capture_run_of_spoilt (h : v.capture.out.spoilt = true) (events : List VigilEvent) :
    (v.run events).capture = v.capture.run (readerEvents events) := by
  induction events generalizing v with
  | nil => rfl
  | cons e events ih =>
      rcases v.capture_step e with hstep | ⟨hclean, _⟩
      · have hspoilt : (v.step e).capture.out.spoilt = true := by
          rw [hstep, Capture.spoilt_run, h]
        rw [run_cons, ih hspoilt, hstep, ← run_readerEvents_cons]
      · rw [h] at hclean
        cases hclean

theorem spoilt_run_of_spoilt (h : v.capture.out.spoilt = true) (events : List VigilEvent) :
    (v.run events).capture.out.spoilt = true := by
  rw [capture_run_of_spoilt h, Capture.spoilt_run, h]

/-- **Nothing but the readers.**  A schedule that leaves the content unspoilt leaves the
capture that its readers alone would leave. -/
theorem capture_run_of_clean {events : List VigilEvent}
    (h : (v.run events).capture.out.spoilt = false) :
    v.capture.out.spoilt = false ∧
      (v.run events).capture = v.capture.run (readerEvents events) := by
  induction events generalizing v with
  | nil => exact ⟨h, rfl⟩
  | cons e events ih =>
      obtain ⟨hclean, hrest⟩ := ih h
      rcases v.capture_step e with hstep | ⟨_, hspoils⟩
      · rw [hstep, Capture.spoilt_run] at hclean
        exact ⟨hclean, by rw [run_cons, hrest, hstep, ← run_readerEvents_cons]⟩
      · rw [hspoils] at hclean
        cases hclean

theorem content_prefix_step (v : Vigil) (e : VigilEvent) :
    v.capture.out.content <+: (v.step e).capture.out.content := by
  have hread : ∀ (s : Capture) (e : CaptureEvent), s.out.content <+: (s.step e).out.content := by
    intro s e
    rw [Capture.out_step]
    split
    · exact Reader.content_prefix_follow _ _
    · exact List.prefix_rfl
  rcases v.capture_step e with hstep | ⟨_, hspoils⟩
  · rw [hstep]
    cases e with
    | reader e => exact hread v.capture e
    | call | wait => exact List.prefix_rfl
  · have hsame : (v.step e).capture.out.content = v.capture.out.content := by rw [hspoils]
    exact hsame ▸ List.prefix_rfl

theorem content_prefix_run (v : Vigil) (events : List VigilEvent) :
    v.capture.out.content <+: (v.run events).capture.out.content := by
  induction events generalizing v with
  | nil => exact List.prefix_rfl
  | cons e events ih => exact (v.content_prefix_step e).trans (ih (v.step e))

/-- The content is spoilt just when a waiter has panicked. -/
def Blamed (v : Vigil) : Prop :=
  v.capture.out.spoilt = true ↔ ∃ w ∈ v.waiters, w.stage = .panicked

theorem Blamed.step (h : v.Blamed) (e : VigilEvent) : (v.step e).Blamed := by
  cases e with
  | reader e =>
      have hspoilt : (v.capture.step e).out.spoilt = v.capture.out.spoilt :=
        Capture.spoilt_run v.capture [e]
      simpa [Blamed, Vigil.step, hspoilt] using h
  | call start expects => simpa [Blamed, Vigil.step, Waiter.new] using h
  | wait i =>
      cases hw : v.waiters[i]? with
      | none => simpa [Vigil.step, hw] using h
      | some w =>
          have hstays : v.capture.out.spoilt = true → (w.step v.capture.out).2.spoilt = true :=
            fun hr => by rw [w.step_of_spoilt hr, hr]
          rw [step_wait hw]
          constructor
          · intro hspoilt
            cases hr : v.capture.out.spoilt with
            | true =>
                -- whoever panicked before is still there
                obtain ⟨u, hu, hpanicked⟩ := h.mp hr
                obtain ⟨j, hj⟩ := List.mem_iff_getElem?.mp hu
                have hj' := waiter_step hj (.wait i)
                rw [step_wait hw] at hj'
                refine ⟨_, List.mem_of_getElem? hj', ?_⟩
                split
                · simp [Waiter.step, hpanicked]
                · exact hpanicked
            | false =>
                obtain ⟨hi, _⟩ := List.getElem?_eq_some_iff.mp hw
                exact ⟨_, List.mem_set hi _, (Waiter.step_spoils hr hspoilt).2.1⟩
          · rintro ⟨u, hu, hpanicked⟩
            by_cases hstage : w.stage = .panicked
            · exact hstays (h.mpr ⟨w, List.mem_of_getElem? hw, hstage⟩)
            · rcases List.mem_or_eq_of_mem_set hu with hu | rfl
              · exact hstays (h.mpr ⟨u, hu, hpanicked⟩)
              · exact Waiter.spoilt_of_panics hstage hpanicked

theorem blamed_run (events : List VigilEvent) : (start.run events).Blamed := by
  have hrun : ∀ (v : Vigil), v.Blamed → (v.run events).Blamed := by
    induction events with
    | nil => exact fun v h => h
    | cons e events ih => exact fun v h => ih (v.step e) (h.step e)
  exact hrun start (by simp [Blamed, start, Capture.start, Reader.start])

theorem clean_of_calm {events : List VigilEvent}
    (h : ∀ w ∈ (start.run events).waiters, w.stage ≠ .panicked) :
    (start.run events).capture.out.spoilt = false := by
  cases hspoilt : (start.run events).capture.out.spoilt with
  | false => rfl
  | true =>
      obtain ⟨w, hw, hpanicked⟩ := (blamed_run events).mp hspoilt
      exact absurd hpanicked (h w hw)

/-- A check that went through can be made again whenever the content is not spoilt. -/
theorem check_again {seen seen' : Nat} {w' : Waiter} {events : List VigilEvent}
    (hw : v.waiters[i]? = some w) (hs : w.stage = .checking seen)
    (hgood : (w.step v.capture.out).1.stage ≠ .panicked) (hclean : v.capture.out.spoilt = false)
    (hw' : (v.run events).waiters[i]? = some w') (hs' : w'.stage = .checking seen')
    (hclean' : (v.run events).capture.out.spoilt = false) :
    (w'.step (v.run events).capture.out).1.stage ≠ .panicked := by
  rw [Ne, Waiter.check_panics_iff hs hclean] at hgood
  rw [Ne, Waiter.check_panics_iff hs' hclean']
  obtain ⟨w'', hw'', hstart⟩ := waiter_run hw events
  obtain rfl : w'' = w' := Option.some.inj (hw''.symm.trans hw')
  obtain ⟨text, htext⟩ := Option.ne_none_iff_exists'.mp hgood
  obtain ⟨more, hmore⟩ := v.content_prefix_run events
  rw [← hmore, hstart, Text.fromByte?_append htext more]
  exact nofun

/-- How far a waiter has come that found spoilt content from the first, after so many of its
moves. -/
def Late (w : Waiter) : Nat → Prop
  | 0 => w.stage = .marking
  | 1 => ∃ seen, w.stage = .checking seen
  | _ => w.stage = .panicked

theorem late_run {n : Nat} (hspoilt : v.capture.out.spoilt = true) (hw : v.waiters[i]? = some w)
    (hlate : Late w n) (events : List VigilEvent) :
    ∃ w', (v.run events).waiters[i]? = some w' ∧ Late w' (n + events.countP (moves i)) := by
  induction events generalizing v w n with
  | nil => exact ⟨w, hw, hlate⟩
  | cons e events ih =>
      have hspoilt' : (v.step e).capture.out.spoilt = true := spoilt_run_of_spoilt hspoilt [e]
      have hnext := waiter_step hw e
      by_cases he : moves i e = true
      · -- a move of its own brings it one step further
        rw [if_pos he] at hnext
        have hlate' : Late (w.step v.capture.out).1 (n + 1) := by
          match n, hlate with
          | 0, hs => simp [Late, Waiter.step, show w.stage = .marking from hs]
          | 1, ⟨seen, hs⟩ => simp [Late, Waiter.step, Waiter.check, hs, hspoilt]
          | n + 2, hs => simp [Late, Waiter.step, show w.stage = .panicked from hs]
        obtain ⟨w', hw', hlater⟩ := ih hspoilt' hnext hlate'
        refine ⟨w', hw', ?_⟩
        rw [List.countP_cons_of_pos he, Nat.add_comm _ 1, ← Nat.add_assoc]
        exact hlater
      · -- and no other event does anything to it
        rw [if_neg he] at hnext
        obtain ⟨w', hw', hlater⟩ := ih hspoilt' hnext hlate
        refine ⟨w', hw', ?_⟩
        rw [List.countP_cons_of_neg he]
        exact hlater

/-- A waiter that is called after a panic panics at its first check. -/
theorem late_call (hspoilt : v.capture.out.spoilt = true) (start : Nat) (expects : Text → Bool)
    (events : List VigilEvent) :
    ∃ w, ((v.step (.call start expects)).run events).waiters[v.waiters.length]? = some w ∧
      Late w (events.countP (moves v.waiters.length)) := by
  have hnew : (v.step (.call start expects)).waiters[v.waiters.length]? =
      some (.new start expects) := by
    simp [step]
  have hlate : Late (.new start expects) 0 := rfl
  have hspoilt' : (v.step (.call start expects)).capture.out.spoilt = true := hspoilt
  obtain ⟨w, hw, hlater⟩ := late_run hspoilt' hnew hlate events
  exact ⟨w, hw, by rwa [Nat.zero_add] at hlater⟩

/-- The panic that spoils the content does nothing else to the capture. -/
theorem capture_spoil {u : Vigil} (hclean : u.capture.out.spoilt = false)
    (hspoilt : (u.step (.wait i)).capture.out.spoilt = true) :
    (u.step (.wait i)).capture =
      { u.capture with out := { u.capture.out with spoilt := true } } := by
  rcases u.capture_step (.wait i) with hstep | ⟨_, hspoils⟩
  · rw [hstep, Capture.spoilt_run, hclean] at hspoilt
    cases hspoilt
  · exact hspoils

theorem out_run_of_spoilt (h : v.capture.out.spoilt = true) (events : List VigilEvent) :
    (v.run events).capture.out =
      (Capture.eventsOf .out (readerEvents events)).foldl Reader.follow v.capture.out := by
  rw [capture_run_of_spoilt h]
  exact v.capture.reader_run (readerEvents events) .out

/-- A reader that was done at the panic stays as it was. -/
theorem stays_done {f : Fate} (hspoilt : v.capture.out.spoilt = true)
    (hdone : v.capture.out.stage = .leaving f ∨ v.capture.out.stage = .stopped f)
    (after : List VigilEvent) :
    let r := v.capture.out
    let r' := (v.run after).capture.out
    r'.content = r.content ∧ r'.shown = r.shown ∧ r'.logged = r.logged ∧
      ∀ g, r'.fate? = some g → g = f := by
  intro r r'
  have hreader : r' = _ := out_run_of_spoilt hspoilt after
  obtain ⟨hstage, hcontent, hshown, hlogged⟩ :=
    Reader.follow_of_leaving hdone (Capture.eventsOf .out (readerEvents after))
  rw [← hreader] at hstage hcontent hshown hlogged
  refine ⟨hcontent, hshown, hlogged, fun g hg => ?_⟩
  rcases hstage with hs | hs
  · simp [Reader.fate?, hs] at hg
  · simpa [Reader.fate?, hs] using hg.symm

/-- A reader that was at work at the panic gives up, and keeps nothing more. -/
theorem gave_up {before : List VigilEvent} (after : List VigilEvent)
    (hclean : (start.run before).capture.out.spoilt = false)
    (hspoilt : ((start.run before).step (.wait i)).capture.out.spoilt = true) :
    let r := ((start.run before).step (.wait i)).capture.out
    let r' := (((start.run before).step (.wait i)).run after).capture.out
    (∀ f, r.stage ≠ .leaving f ∧ r.stage ≠ .stopped f) →
      r'.content = r.content ∧ ∀ f, r'.fate? = some f →
        r'.GaveUp f r.content
          (r.stage.piece?.toList ++ r.pieces (Capture.eventsOf .out (readerEvents after))) := by
  intro r r' hwork
  have hreader : r = { (start.run before).capture.out with spoilt := true } :=
    congrArg Capture.out (capture_spoil hclean hspoilt)
  obtain ⟨taken, hsound⟩ : ∃ taken, (start.run before).capture.out.Sound taken := by
    rw [(capture_run_of_clean hclean).2]
    exact ((Capture.calm_start.run (readerEvents before)) .out).1
  have hdoomed : r.Doomed r.content r.stage.piece?.toList := by
    rw [hreader] at hwork ⊢
    exact hsound.doomed hwork
  have hend := hdoomed.run (Capture.eventsOf .out (readerEvents after))
  rw [← out_run_of_spoilt hspoilt after] at hend
  exact ⟨hend.2.1, fun f hf => hend.gaveUp hf⟩

end Vigil

theorem Endings.collect_of_spoilt (e : Endings) (deadline : Nat) (d : Death) :
    e.collect deadline true ≠ .finished d := by
  unfold collect
  repeat' split
  all_goals simp_all

namespace Capture

variable {s : Capture}

theorem collect_of_spoilt (h : s.out.spoilt = true) (exit : Option Death) (d : Death) :
    s.collect exit ≠ .finished d := by
  rw [collect, h]
  exact Endings.collect_of_spoilt _ _ _

/-- A reader of standard output that has given up settles what collecting gives. -/
theorem collect_of_gave_up {f : Fate} (h : s.out.fate? = some f) (hf : f ≠ .ended)
    (exit : Option Death) :
    s.collect exit = .failed (if f = .failed then .illFormed else .readerPanicked) := by
  cases f with
  | ended => exact absurd rfl hf
  | failed | panicked => simp [collect, Endings.collect, byDeadline, h]

theorem collect_of_ended (hs : s.out.spoilt = true) (h : s.out.fate? = some .ended)
    (herr : s.err.fate? = some .ended) (d : Death) : s.collect (some d) = .panicked := by
  simp [collect, Endings.collect, byDeadline, h, herr, hs]

end Capture

end Offspring
