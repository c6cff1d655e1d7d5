import Offspring.Proofs.Capture.Watch
import Offspring.Proofs.Text.Lines
import Offspring.Runner.Trial
/-!
# Waiting for a running program

A wait of a trial is a schedule of its waiter and the reader of standard output: what
comes is read whole, and then the waiter moves until it is at rest
(`Trial.Awaits.schedule`).  A wait that can cut the content leaves the capture as if
nobody had waited (`Trial.Awaits.capture`), and its waiter is not left behind when all
has come (`Trial.Awaits.in_time`).  So the laws of all schedules hold of the waits of a
trial (`wait_misses_nothing`).
-/

namespace Offspring

namespace Waiter

variable {w : Waiter} {r : Reader}

/-- Moves of the waiter alone are a schedule too. -/
theorem steps_eq_watchRun (n : Nat) (w : Waiter) (r : Reader) :
    steps n w r = watchRun (w, r) (List.replicate n .wait) := by
  induction n generalizing w r with
  | zero => rfl
  | succ n ih =>
      rw [List.replicate_succ, watchRun_cons]
      exact ih _ _

/-- A check that can be made does not disturb the reader. -/
theorem step_of_fromByte {t : Text} (hr : r.spoilt = false)
    (ht : r.content.fromByte? w.start = some t) : (w.step r).2 = r := by
  unfold step
  split
  · rfl
  · rw [check_of_fromByte hr ht]
  · repeat' split
    all_goals rfl
  · rfl

theorem steps_of_fromByte {t : Text} (hr : r.spoilt = false)
    (ht : r.content.fromByte? w.start = some t) (n : Nat) : (steps n w r).2 = r := by
  induction n generalizing w with
  | zero => rfl
  | succ n ih =>
      have hstep := step_of_fromByte hr ht
      have hstart := (w.start_step r).1
      simp only [steps]
      rw [hstep]
      exact ih (by rw [hstart]; exact ht)

/-- A waiter with the reader at rest succeeds only on what it expects of the content. -/
theorem expects_of_steps {t : Text} (hr : r.spoilt = false)
    (ht : r.content.fromByte? w.start = some t) (hopen : w.stage ≠ .met) {n : Nat}
    (hmet : (steps n w r).1.stage = .met) : w.expects t = true := by
  induction n generalizing w with
  | zero => exact absurd hmet hopen
  | succ n ih =>
      obtain ⟨hstart, hexpects⟩ := w.start_step r
      simp only [steps] at hmet
      rw [step_of_fromByte hr ht] at hmet
      by_cases hnow : (w.step r).1.stage = .met
      · cases hs : w.stage with
        | checking seen =>
            rw [step, hs] at hnow
            dsimp only at hnow
            rw [check_of_fromByte hr ht] at hnow
            by_contra hfalse
            simp [hfalse] at hnow
        | marking => simp [step, hs] at hnow
        | awaiting seen =>
            simp only [step, hs] at hnow
            repeat' split at hnow
            all_goals simp_all
        | met => exact absurd hs hopen
        | closed => simp [step, hs] at hnow
        | panicked => simp [step, hs] at hnow
      · rw [← hexpects]
        exact ih (by rw [hstart]; exact ht) hnow hmet

/-- A waiter that has moved often enough is done or awaits a change. -/
theorem rank_steps (n : Nat) (w : Waiter) (r : Reader) :
    (steps n w r).1.rank (steps n w r).2 ≤ max 1 (w.rank r - n) := by
  induction n generalizing w r with
  | zero => exact Nat.le_max_right 1 _
  | succ n ih =>
      have hrest := ih (w.step r).1 (w.step r).2
      simp only [steps]
      rcases w.rank_step r with hstep | ⟨hsame, hone, _⟩
      · omega
      · simp only [hsame] at hrest ⊢
        omega

/-- Four moves do for a waiter that is not about to check. -/
theorem rank_le_four (h : ∀ seen, w.stage ≠ .checking seen) (r : Reader) : w.rank r ≤ 4 := by
  unfold rank
  split
  · omega
  · next seen hs => exact absurd hs (h seen)
  · split <;> omega
  · omega

theorem two_le_rank {seen : Nat} (h : w.stage = .checking seen) (r : Reader) : 2 ≤ w.rank r := by
  simp only [rank, h]
  split <;> omega

theorem stage_settle (w : Waiter) (r : Reader) (seen : Nat) :
    (w.settle r).1.stage ≠ .checking seen := by
  intro hs
  have hrank : (w.settle r).1.rank (w.settle r).2 ≤ max 1 (w.rank r - 4) := rank_steps 4 w r
  have hfive := w.rank_le_five r
  have htwo := two_le_rank hs (w.settle r).2
  omega

/-- Once the reader is over, a waiter that is not about to check comes to its end. -/
theorem done_settle (h : ∀ seen, w.stage ≠ .checking seen) (hover : r.isOver = true) :
    (w.settle r).1.stage = .met ∨ (w.settle r).1.stage = .closed ∨
      (w.settle r).1.stage = .panicked := by
  have hmoves := rank_watchRun (s := (w, r)) hover (List.replicate 4 .wait)
  rw [← steps_eq_watchRun, List.count_replicate_self] at hmoves
  have hrank : (w.settle r).1.rank (w.settle r).2 ≤ w.rank r - 4 := hmoves
  have hfour := rank_le_four h r
  exact done_of_rank_eq_zero (r := (w.settle r).2) (by omega)

end Waiter

/-- What a read of a channel means to a waiter for standard output. -/
def Channel.watched (bytes : Bytes) : Channel → List WatchEvent
  | .out => [.read bytes, .move, .move, .move, .move]
  | .err => []

/-- A read of one channel leaves the reader of the other alone. -/
theorem Capture.reader_feed (s : Capture) (c d : Channel) (bytes : Bytes) :
    (s.feed d bytes).reader c = if d = c then (s.reader c).feed bytes else s.reader c := by
  cases c <;> cases d <;> rfl

namespace Trial

/-- What comes to the readers is all that the capture depends on. -/
theorem capture_advance (t : Trial) (a : Arrival) :
    (t.advance a).capture = a.reads.foldl (fun s r => s.feed r.1 r.2) t.capture := rfl

/-- Each reader takes the reads of its own channel. -/
theorem reader_advance (t : Trial) (a : Arrival) (c : Channel) :
    (t.advance a).capture.reader c = (t.capture.reader c).feedAll (a.readsOf c) := by
  rw [capture_advance, Arrival.readsOf]
  generalize t.capture = s
  induction a.reads generalizing s with
  | nil => rfl
  | cons read reads ih =>
      obtain ⟨d, bytes⟩ := read
      rw [List.foldl_cons, ih, Capture.reader_feed]
      cases c <;> cases d <;> rfl

theorem out_advance (t : Trial) (a : Arrival) :
    (t.advance a).capture.out = t.capture.out.feedAll (a.readsOf .out) :=
  t.reader_advance a .out

/-- What comes in an arrival, as a waiter for standard output sees it. -/
theorem watchRun_advance (w : Waiter) (t : Trial) (a : Arrival) :
    watchRun (w, t.capture.out) (a.reads.flatMap fun r => r.1.watched r.2) =
      (w, (t.advance a).capture.out) := by
  rw [capture_advance]
  generalize t.capture = s
  induction a.reads generalizing s with
  | nil => rfl
  | cons read reads ih =>
      obtain ⟨c, bytes⟩ := read
      have hout : (s.feed c bytes).out = if c = .out then s.out.feed bytes else s.out :=
        s.reader_feed .out c bytes
      rw [List.flatMap_cons, watchRun_append, List.foldl_cons, ← ih, hout]
      cases c <;> rfl

/-- What a waiter makes of the reader it finds. -/
theorem watchRun_settle (w : Waiter) (t : Trial) :
    watchRun (w, t.capture.out) (List.replicate 4 .wait) =
      ((t.settle w).1, (t.settle w).2.capture.out) :=
  (Waiter.steps_eq_watchRun 4 w t.capture.out).symm

theorem spoilt_advance (t : Trial) (a : Arrival) :
    (t.advance a).capture.out.spoilt = t.capture.out.spoilt := by
  rw [out_advance, Reader.spoilt_feedAll]

/-- A waiter that can cut the content leaves the trial as it is, and goes on wanting the
same. -/
theorem settle_of_fromByte {t t' : Trial} {w w' : Waiter} {text : Text}
    (hsettle : t.settle w = (w', t')) (hclean : t.capture.out.spoilt = false)
    (htext : t.capture.out.content.fromByte? w.start = some text) :
    t' = t ∧ w'.start = w.start ∧ ∀ seen, w'.stage ≠ .checking seen := by
  have hsame := Waiter.steps_of_fromByte hclean htext 4
  have hstart := (start_watchRun (w, t.capture.out) (List.replicate 4 .wait)).1
  rw [watchRun_settle, hsettle] at hstart
  simp only [settle, Waiter.settle, hsame, Prod.mk.injEq] at hsettle
  obtain ⟨hw, ht⟩ := hsettle
  refine ⟨ht.symm, hstart, ?_⟩
  rw [← hw]
  exact w.stage_settle t.capture.out

end Trial

/-- What the end of a wait says about where its waiter stands. -/
def Waited.Tells (result : Waited) (deadline : Option Nat) (w : Waiter) (r : Reader) : Prop :=
  match result with
  | .met => w.stage = .met
  | .closed seen => w.stage = .closed ∧ seen = (r.content.fromByte? w.start).getD []
  | .panicked => w.stage = .panicked
  | .late => deadline.isSome
  | .never => deadline = none

namespace Trial

/-- How a wait goes: the waiter is done, or its time is over, or something comes. -/
inductive Awaits (deadline : Option Nat) :
    List Arrival → Waiter → Trial → Waited × Trial → Prop
  | done {coming : List Arrival} {w w' : Waiter} {t t' : Trial} {result : Waited}
      (hsettle : t.settle w = (w', t'))
      (htells : result.Tells deadline w' t'.capture.out)
      (htime : result ≠ .late ∧ result ≠ .never) :
      Awaits deadline coming w t (result, { t' with coming := coming })
  | expires {coming : List Arrival} {w w' : Waiter} {t t' : Trial}
      (hsettle : t.settle w = (w', t'))
      (hopen : w'.stage ≠ .met ∧ w'.stage ≠ .closed ∧ w'.stage ≠ .panicked)
      (hpast : ∀ a ∈ coming.head?, isPast deadline a.time = true) :
      Awaits deadline coming w t (t'.expire deadline coming)
  | comes {a : Arrival} {rest : List Arrival} {w w' : Waiter} {t t' : Trial}
      {left : Waited × Trial}
      (hsettle : t.settle w = (w', t'))
      (hopen : w'.stage ≠ .met)
      (htime : isPast deadline a.time = false)
      (hrest : Awaits deadline rest w' (t'.advance a) left) :
      Awaits deadline (a :: rest) w t left

/-- A wait goes like that. -/
theorem awaits_await (deadline : Option Nat) (coming : List Arrival) (w : Waiter) (t : Trial) :
    Awaits deadline coming w t (await deadline coming w t) := by
  induction coming generalizing w t with
  | nil =>
      rw [await]
      split
      next w' t' hsettle =>
      split
      · next hs => exact .done hsettle hs ⟨nofun, nofun⟩
      · next hs => exact .done hsettle hs ⟨nofun, nofun⟩
      · next hs => exact .done hsettle ⟨hs, rfl⟩ ⟨nofun, nofun⟩
      · next hmet hpanicked hclosed =>
        exact .expires hsettle ⟨hmet, hclosed, hpanicked⟩ nofun
  | cons a rest ih =>
      rw [await]
      split
      next w' t' hsettle =>
      split
      · next hs => exact .done hsettle hs ⟨nofun, nofun⟩
      · next hs => exact .done hsettle hs ⟨nofun, nofun⟩
      · next hs => exact .done hsettle ⟨hs, rfl⟩ ⟨nofun, nofun⟩
      · next hmet hpanicked hclosed =>
        dsimp only
        split
        · next hpast =>
          exact .expires hsettle ⟨hmet, hclosed, hpanicked⟩ (by simpa using hpast)
        · next hpast => exact .comes hsettle hmet (by simpa using hpast) (ih _ _)

/-- A wait whose time is over leaves the capture alone. -/
theorem capture_expire (t : Trial) (deadline : Option Nat) (coming : List Arrival) :
    (t.expire deadline coming).2.capture = t.capture ∧
      (t.expire deadline coming).2.coming = coming := by
  cases deadline <;> exact ⟨rfl, rfl⟩

theorem tells_expire (t : Trial) (deadline : Option Nat) (coming : List Arrival) (w : Waiter)
    (r : Reader) : (t.expire deadline coming).1.Tells deadline w r := by
  cases deadline <;> exact rfl

variable {deadline : Option Nat} {coming : List Arrival} {w : Waiter} {t : Trial}
  {left : Waited × Trial}

/-- **A wait is a schedule.**  There are moves of the waiter and of the reader of standard
output, in some order, that bring both where the wait leaves them. -/
theorem Awaits.schedule (h : Awaits deadline coming w t left) :
    ∃ events w', watchRun (w, t.capture.out) events = (w', left.2.capture.out) ∧
      left.1.Tells deadline w' left.2.capture.out := by
  induction h with
  | @done coming w w' t t' result hsettle htells _ =>
      have hmoves := watchRun_settle w t
      rw [hsettle] at hmoves
      exact ⟨_, w', hmoves, htells⟩
  | @expires coming w w' t t' hsettle _ _ =>
      have hmoves := watchRun_settle w t
      rw [hsettle, ← (capture_expire t' deadline coming).1] at hmoves
      exact ⟨_, w', hmoves, tells_expire t' deadline coming w' _⟩
  | @comes a rest w w' t t' left hsettle _ _ _ ih =>
      obtain ⟨events, w'', hrest, htells⟩ := ih
      refine ⟨List.replicate 4 .wait ++
        (a.reads.flatMap (fun r => r.1.watched r.2) ++ events), w'', ?_, htells⟩
      rw [watchRun_append, watchRun_append, watchRun_settle, hsettle, watchRun_advance, hrest]

/-- A content that can be cut at a byte still can be when more has come. -/
theorem fromByte_advance {n : Nat} {text : Text}
    (htext : t.capture.out.content.fromByte? n = some text) (a : Arrival) :
    ∃ text', (t.advance a).capture.out.content.fromByte? n = some text' := by
  have hgrows := content_prefix_watchRun (.forText n [], t.capture.out)
    (a.reads.flatMap fun r => r.1.watched r.2)
  rw [watchRun_advance] at hgrows
  obtain ⟨more, hmore⟩ := hgrows
  exact ⟨_, by rw [← hmore]; exact Text.fromByte?_append htext more⟩

/-- **A wait that can cut the content changes nothing.**  What came has come, the rest is
still to come, and but for the time all is as if nobody had waited. -/
theorem Awaits.come (h : Awaits deadline coming w t left)
    (hclean : t.capture.out.spoilt = false) {text : Text}
    (htext : t.capture.out.content.fromByte? w.start = some text) :
    ∃ come, coming = come ++ left.2.coming ∧
      left.2 = { come.foldl advance t with now := left.2.now, coming := left.2.coming } ∧
      ((∀ d ∈ deadline, t.now ≤ d) → (come.foldl advance t).now ≤ left.2.now) := by
  induction h generalizing text with
  | @done coming w w' t t' result hsettle _ _ =>
      obtain ⟨rfl, _⟩ := settle_of_fromByte hsettle hclean htext
      exact ⟨[], rfl, rfl, fun _ => Nat.le_refl _⟩
  | @expires coming w w' t t' hsettle _ _ =>
      obtain ⟨rfl, _⟩ := settle_of_fromByte hsettle hclean htext
      cases deadline with
      | none => exact ⟨[], rfl, rfl, fun _ => Nat.le_refl _⟩
      | some d => exact ⟨[], rfl, rfl, fun hnow => hnow d rfl⟩
  | @comes a rest w w' t t' left hsettle _ htime _ ih =>
      obtain ⟨rfl, hstart, _⟩ := settle_of_fromByte hsettle hclean htext
      obtain ⟨text', htext'⟩ := fromByte_advance htext a
      obtain ⟨come, hcoming, heq, hlater⟩ :=
        ih (by rw [spoilt_advance, hclean]) (by rw [hstart]; exact htext')
      refine ⟨a :: come, congrArg (a :: ·) hcoming, heq, fun hnow => hlater ?_⟩
      rintro d rfl
      have hd := hnow d rfl
      simp only [isPast, decide_eq_false_iff_not] at htime
      simp only [advance]
      omega

/-- So what the readers have is what has come. -/
theorem Awaits.capture (h : Awaits deadline coming w t left)
    (hclean : t.capture.out.spoilt = false) {text : Text}
    (htext : t.capture.out.content.fromByte? w.start = some text) :
    ∃ come, coming = come ++ left.2.coming ∧
      left.2.capture = (come.foldl advance t).capture := by
  obtain ⟨come, hcoming, heq, _⟩ := h.come hclean htext
  have hcapture := congrArg Trial.capture heq
  exact ⟨come, hcoming, hcapture⟩

/-- A wait under which the reader comes to its end has no reason to time out. -/
theorem Awaits.in_time (h : Awaits deadline coming w t left)
    (hstage : ∀ seen, w.stage ≠ .checking seen)
    (hover : (coming.foldl advance t).capture.out.isOver = true)
    (hclean : t.capture.out.spoilt = false) {text : Text}
    (htext : t.capture.out.content.fromByte? w.start = some text)
    (htime : ∀ a ∈ coming, isPast deadline a.time = false) :
    left.1 ≠ .late ∧ left.1 ≠ .never := by
  induction h generalizing text with
  | done _ _ hresult => exact hresult
  | @expires coming w w' t t' hsettle hopen hpast =>
      cases coming with
      | nil =>
          exfalso
          have hdone := Waiter.done_settle (r := t.capture.out) hstage hover
          have hw : (w.settle t.capture.out).1 = w' := congrArg Prod.fst hsettle
          rw [hw] at hdone
          rcases hdone with hs | hs | hs
          · exact hopen.1 hs
          · exact hopen.2.1 hs
          · exact hopen.2.2 hs
      | cons a rest =>
          have hp := hpast a rfl
          rw [htime a List.mem_cons_self] at hp
          cases hp
  | @comes a rest w w' t t' left hsettle _ _ _ ih =>
      obtain ⟨rfl, hstart, hstage'⟩ := settle_of_fromByte hsettle hclean htext
      obtain ⟨text', htext'⟩ := fromByte_advance htext a
      exact ih hstage' hover (by rw [spoilt_advance, hclean]) (by rw [hstart]; exact htext')
        (fun a' ha => htime a' (List.mem_cons_of_mem _ ha))

/-- **A wait that succeeds leaves a content that is as expected.** -/
theorem Awaits.content_of_met (h : Awaits deadline coming w t left)
    (hclean : t.capture.out.spoilt = false) {text : Text}
    (htext : t.capture.out.content.fromByte? w.start = some text) (hopen : w.stage ≠ .met)
    (hmet : left.1 = .met) :
    ∃ text', left.2.capture.out.content.fromByte? w.start = some text' ∧
      w.expects text' = true := by
  induction h generalizing text with
  | @done coming w w' t t' result hsettle htells _ =>
      obtain ⟨rfl, _⟩ := settle_of_fromByte hsettle hclean htext
      have hw : (w.settle t'.capture.out).1 = w' := congrArg Prod.fst hsettle
      have hstage : (w.settle t'.capture.out).1.stage = .met := by
        rw [hw]
        rw [show result = .met from hmet] at htells
        exact htells
      exact ⟨text, htext, Waiter.expects_of_steps hclean htext hopen hstage⟩
  | @expires coming w w' t t' hsettle _ _ =>
      cases deadline <;> cases hmet
  | @comes a rest w w' t t' left hsettle hopen' _ _ ih =>
      have hsame := settle_of_fromByte hsettle hclean htext
      have hwants := (start_watchRun (w, t.capture.out) (List.replicate 4 .wait)).2
      rw [watchRun_settle, hsettle] at hwants
      obtain ⟨rfl, hstart, _⟩ := hsame
      obtain ⟨text', htext'⟩ := fromByte_advance htext a
      have hlater := ih (by rw [spoilt_advance, hclean]) (by rw [hstart]; exact htext') hopen' hmet
      rwa [hstart, show w'.expects = w.expects from hwants] at hlater

/-- A reader that is over makes nothing of what is still to come. -/
theorem out_foldl_advance_of_isOver (h : t.capture.out.isOver = true) (coming : List Arrival) :
    (coming.foldl advance t).capture.out = t.capture.out := by
  induction coming generalizing t with
  | nil => rfl
  | cons a rest ih =>
      have hsame : (t.advance a).capture.out = t.capture.out := by
        rw [out_advance]
        exact Reader.feedAll_of_isOver h _
      rw [List.foldl_cons, ih (by rw [hsame]; exact h), hsame]

/-- A wait for lines that succeeds has seen them all when it last looked, and leaves a content
that has them. -/
theorem waitLines_of_met {expected : List Text} {timeout : Nat}
    (hclean : t.capture.out.spoilt = false) (hmet : (t.waitLines expected timeout).1 = .met) :
    (∀ l ∈ expected, l ∈ (t.waitLines expected timeout).2.capture.out.content.lines) ∧
    ∃ events c, (watchRun (.forLines expected, t.capture.out) events).2 =
        (t.waitLines expected timeout).2.capture.out ∧
      (looks (.forLines expected, t.capture.out) events).getLast? = some c ∧
      ∀ l ∈ expected, l ∈ c.lines := by
  have hwait := awaits_await (some (t.now + millis timeout)) t.coming (.forLines expected) t
  constructor
  · obtain ⟨text, htext, hexpects⟩ := hwait.content_of_met hclean (Text.fromByte?_zero _) nofun hmet
    obtain rfl := Option.some.inj ((Text.fromByte?_zero _).symm.trans htext)
    exact (Text.hasLines_iff expected _).mp hexpects
  · obtain ⟨events, w', hmoves, htells⟩ := hwait.schedule
    change (t.waitLines expected timeout).1.Tells _ _ _ at htells
    rw [hmet] at htells
    have hstage : (watchRun (.forLines expected, t.capture.out) events).1.stage = .met := by
      rw [hmoves]
      exact htells
    obtain ⟨c, text, hlook, hcut, hexpects⟩ := Waiter.look_of_met hclean hstage
    obtain rfl := Option.some.inj ((Text.fromByte?_zero c).symm.trans hcut)
    exact ⟨events, c, congrArg Prod.snd hmoves, hlook,
      (Text.hasLines_iff expected c).mp hexpects⟩

/-- A wait for lines ends in one of two ways when all of them are lines of what standard
output comes to. -/
theorem waitLines_of_lines {expected : List Text} (timeout : Nat)
    (hclean : t.capture.out.spoilt = false)
    (hlines : ∀ l ∈ expected, l ∈ (t.coming.foldl advance t).capture.out.content.lines) :
    (t.waitLines expected timeout).1 = .met ∨ (t.waitLines expected timeout).1 = .late := by
  have hwait := awaits_await (some (t.now + millis timeout)) t.coming (.forLines expected) t
  have htext : t.capture.out.content.fromByte? 0 = some t.capture.out.content :=
    Text.fromByte?_zero _
  obtain ⟨events, w', hmoves, htells⟩ := hwait.schedule
  obtain ⟨come, hcoming, hcapture⟩ := hwait.capture hclean htext
  have hstage : (watchRun (.forLines expected, t.capture.out) events).1.stage = w'.stage := by
    rw [hmoves]
  change (t.waitLines expected timeout).1.Tells _ _ _ at htells
  cases hresult : (t.waitLines expected timeout).1 with
  | met => exact .inl rfl
  | late => exact .inr rfl
  | never =>
      rw [hresult] at htells
      cases htells
  | panicked =>
      rw [hresult] at htells
      exact absurd (hstage.trans htells) (Waiter.not_panicked hclean htext events)
  | closed seen =>
      rw [hresult] at htells
      obtain ⟨hover, text, hcut, hfalse⟩ :=
        Waiter.content_of_closed hclean (hstage.trans htells.1)
      change (watchRun (.forLines expected, t.capture.out) events).2.isOver = true at hover
      change (watchRun (.forLines expected, t.capture.out) events).2.content.fromByte? 0 = _ at hcut
      rw [hmoves, hcapture] at hover hcut
      -- the wait ends at closure, so nothing that is still to come changes the content
      have hfinal : (t.coming.foldl advance t).capture.out =
          (come.foldl advance t).capture.out := by
        rw [hcoming, List.foldl_append]
        exact out_foldl_advance_of_isOver hover _
      rw [Text.fromByte?_zero, ← hfinal] at hcut
      rw [← Option.some.inj hcut, (Text.hasLines_iff expected _).mpr hlines] at hfalse
      cases hfalse

/-- And in one of them if the reader comes to its end before the deadline. -/
theorem waitLines_in_time {expected : List Text} {timeout : Nat}
    (hclean : t.capture.out.spoilt = false)
    (hover : (t.coming.foldl advance t).capture.out.isOver = true)
    (htime : ∀ a ∈ t.coming, a.time ≤ t.now + millis timeout) :
    (t.waitLines expected timeout).1 ≠ .late := by
  have hwait := awaits_await (some (t.now + millis timeout)) t.coming (.forLines expected) t
  have hpast : ∀ a ∈ t.coming, isPast (some (t.now + millis timeout)) a.time = false := by
    intro a ha
    have := htime a ha
    simp only [isPast, decide_eq_false_iff_not]
    omega
  exact (hwait.in_time nofun hover hclean (Text.fromByte?_zero _) hpast).1

end Trial

/-- **No change is missed.**  Whatever is expected of the content from a byte on, and
however the waiter and the reader take turns, the waiter succeeds only if the content was
as expected when it last looked, and reports closure only if the final content is not.  It
can panic only where the content cannot be cut at its byte.  Once the reader is over, five
moves of the waiter end the wait, and with success if the final content is as expected.
So a wait for lines succeeds only if it has seen them all when it last looked, and if standard
output comes to have them, it succeeds unless its time runs out first. -/
theorem wait_misses_nothing (start : Nat) (expects : Text → Bool) (r : Reader)
    (hr : r.spoilt = false) (events : List WatchEvent) :
    let s₀ := (Waiter.new start expects, r)
    let s := watchRun s₀ events
    (s.1.stage = .met → ∃ c t, (looks s₀ events).getLast? = some c ∧
      c.fromByte? start = some t ∧ expects t = true) ∧
    (s.1.stage = .closed → s.2.isOver = true ∧
      ∃ t, s.2.content.fromByte? start = some t ∧ expects t = false) ∧
    (s.1.stage = .panicked → ∃ c, (looks s₀ events).getLast? = some c ∧
      c.fromByte? start = none) ∧
    (∀ t₀, r.content.fromByte? start = some t₀ → s.1.stage ≠ .panicked) ∧
    (s.2.isOver = true → ∀ more,
      (watchRun s more).2.content = s.2.content ∧
      (5 ≤ more.count .wait →
        ((watchRun s more).1.stage = .met ∨ (watchRun s more).1.stage = .closed ∨
          (watchRun s more).1.stage = .panicked) ∧
        ∀ t₀ t, r.content.fromByte? start = some t₀ →
          s.2.content.fromByte? start = some t → expects t = true →
          (watchRun s more).1.stage = .met)) ∧
    ∀ (t : Trial) (expected : List Text) (timeout : Nat),
      let waited := t.waitLines expected timeout
      let last := (t.coming.foldl Trial.advance t).capture.out
      t.capture.out.spoilt = false →
      (waited.1 = .met →
        (∀ l ∈ expected, l ∈ waited.2.capture.out.content.lines) ∧
        ∃ events c, (watchRun (.forLines expected, t.capture.out) events).2 =
            waited.2.capture.out ∧
          (looks (.forLines expected, t.capture.out) events).getLast? = some c ∧
          ∀ l ∈ expected, l ∈ c.lines) ∧
      ((∀ l ∈ expected, l ∈ last.content.lines) →
        (waited.1 = .met ∨ waited.1 = .late) ∧
        (last.isOver = true → (∀ a ∈ t.coming, a.time ≤ t.now + millis timeout) →
          waited.1 = .met)) := by
  intro s₀ s
  refine ⟨Waiter.look_of_met hr, Waiter.content_of_closed hr, Waiter.look_of_panicked hr,
    fun t₀ ht₀ => Waiter.not_panicked hr ht₀ events, ?_, ?_⟩
  · intro hover more
    refine ⟨(watchRun_of_isOver hover more).2, fun hcount => ?_⟩
    refine ⟨Waiter.done_of_isOver hover hcount, ?_⟩
    intro t₀ t ht₀ ht hexp
    exact Waiter.met_of_isOver hr ht₀ hover ht hexp hcount
  · intro t expected timeout waited last hclean
    refine ⟨Trial.waitLines_of_met hclean, fun hlines => ?_⟩
    have hends := Trial.waitLines_of_lines timeout hclean hlines
    refine ⟨hends, fun hover htime => ?_⟩
    exact hends.resolve_right (Trial.waitLines_in_time hclean hover htime)

/-- A line that comes after a waiter has checked, and with it the end of the channel. -/
theorem wait_misses_no_late_line :
    let s := watchRun (.forLines [['a']], Reader.start)
      [.wait, .wait, .read [0x61, 0x0A], .move, .move, .move, .read [], .move, .move, .move, .move]
    Reader.start.spoilt = false ∧ s.1.stage = .awaiting 0 ∧ s.2.isOver = true ∧
      (watchRun s (List.replicate 5 .wait)).1.stage = .met := by
  intro s
  have hlaw := wait_misses_nothing 0 (Text.hasLines [['a']]) Reader.start rfl
    [.wait, .wait, .read [0x61, 0x0A], .move, .move, .move, .read [], .move, .move, .move, .move]
  refine ⟨rfl, by decide, by decide, ?_⟩
  exact ((hlaw.2.2.2.2.1 (by decide) (List.replicate 5 .wait)).2 (by decide)).2 [] ['a', '\n']
    rfl (by decide) (by decide)

end Offspring
