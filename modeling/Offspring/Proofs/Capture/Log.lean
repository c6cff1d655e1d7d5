import Offspring.Capture.Log
import Offspring.Proofs.Capture.Reader
/-!
# What two readers leave in one log

Neither reader disturbs the other: where a reader stands depends on the events of its own
channel alone (`Capture.reader_run`).  What it adds to the log are the pieces that its
reads bring, whole and in order, but for the one that it is still passing on
(`Capture.entries_run`).  A piece is shown before it is logged and logged before it is
kept, so what was kept begins what was logged, and that begins what was shown
(`Reader.Sound.levels`).

Together this says what the log is in every state that two readers can come to
(`Capture.log_law`): the pieces of both channels, each channel in its order.
-/

namespace Offspring

namespace Stage

/-- The piece that a reader is passing on. -/
def piece? : Stage → Option Text
  | .showing t _ => some t
  | .logging t _ => some t
  | .keeping t _ => some t
  | _ => none

/-- The piece that a reader has still to log. -/
def toLog? : Stage → Option Text
  | .showing t _ => some t
  | .logging t _ => some t
  | _ => none

theorem piece_of_toLog {stage : Stage} {t : Text} (h : stage.toLog? = some t) :
    stage.piece? = some t := by
  cases stage <;> simp_all [toLog?, piece?]

/-- Either nothing of the piece has gone further than the rest of it, or it has been shown
and is logged or not. -/
theorem behind (stage : Stage) :
    (stage.unlogged = stage.unshown ∧ stage.unkept = stage.unshown) ∨
    ∃ t, stage.piece? = some t ∧ stage.unshown = [] ∧ stage.unkept = t ∧
      (stage.unlogged = t ∨ stage.unlogged = []) := by
  cases stage <;> simp [unshown, unlogged, unkept, piece?]

end Stage

/-- The channel of an event. -/
def CaptureEvent.channel : CaptureEvent → Channel
  | .read c _ => c
  | .move c => c

namespace Reader

/-- What an event of its channel makes of a reader. -/
def follow (r : Reader) : CaptureEvent → Reader
  | .read _ bytes => r.take bytes
  | .move _ => r.move

/-- The piece that an event of its channel brings to a reader. -/
def brings? (r : Reader) : CaptureEvent → Option Text
  | .read _ bytes =>
    match r.stage, decodeRead r.tail bytes with
    | .reading, .piece t _ => some t
    | _, _ => none
  | .move _ => none

/-- The piece that a reader adds to the log in an event of its channel. -/
def adds? (r : Reader) : CaptureEvent → Option Text
  | .read _ _ => none
  | .move _ => r.logs?

/-- The pieces that a row of events of its channel brings to a reader, in order. -/
def pieces (r : Reader) : List CaptureEvent → List Text
  | [] => []
  | e :: events => (r.brings? e).toList ++ (r.follow e).pieces events

/-- Every piece is logged once, and none before it was brought. -/
theorem adds_toLog (r : Reader) (e : CaptureEvent) :
    (r.adds? e).toList ++ (r.follow e).stage.toLog?.toList =
      r.stage.toLog?.toList ++ (r.brings? e).toList := by
  cases e with
  | read c bytes =>
      by_cases hs : r.stage = .reading
      · cases hd : decodeRead r.tail bytes <;>
          simp [adds?, brings?, follow, take, Stage.toLog?, hs, hd]
      · have hnone : r.brings? (.read c bytes) = none := by
          cases hstage : r.stage <;> simp_all [brings?]
        rw [follow, take_of_not_reading hs, hnone]
        simp [adds?]
  | move c =>
      simp only [adds?, brings?, follow, Option.toList_none, List.append_nil]
      unfold move logs?
      repeat' split
      all_goals simp_all [Stage.toLog?]

theorem logged_follow (r : Reader) (e : CaptureEvent) :
    (r.follow e).logged = r.logged ++ (r.adds? e).toList.flatten := by
  cases e with
  | read c bytes =>
      simp only [follow, adds?, Option.toList_none, List.flatten_nil, List.append_nil]
      unfold take
      repeat' split
      all_goals rfl
  | move c =>
      simp only [follow, adds?]
      unfold move logs?
      repeat' split
      all_goals simp_all

theorem spoilt_follow (r : Reader) (e : CaptureEvent) : (r.follow e).spoilt = r.spoilt := by
  cases e with
  | read c bytes => exact r.spoilt_take bytes
  | move c => exact r.spoilt_move

variable {r : Reader} {taken : Bytes}

theorem Sound.follow (h : r.Sound taken) (e : CaptureEvent) :
    ∃ taken', (r.follow e).Sound taken' := by
  cases e with
  | read c bytes =>
      by_cases hr : r.stage = .reading
      · rcases h.take hr bytes with ⟨hsound, _⟩ | ⟨hsound, _⟩
        · exact ⟨_, hsound⟩
        · exact ⟨_, hsound⟩
      · rw [Reader.follow, take_of_not_reading hr]
        exact ⟨taken, h⟩
  | move c => exact ⟨taken, h.move⟩

/-- **Three levels.**  What was kept begins what was logged, that begins what was shown,
and there is at most the piece between them that the reader is passing on. -/
theorem Sound.levels (h : r.Sound taken) (hs : r.spoilt = false) :
    r.content <+: r.logged ∧ r.logged <+: r.shown ∧
      (r.shown = r.content ∨ ∃ t, r.stage.piece? = some t ∧ r.shown = r.content ++ t) := by
  have hcalm : r.stage.fate? ≠ some .panicked := by
    intro hp
    rw [h.panicked hp] at hs
    cases hs
  have hlogged := h.logged.trans h.shown.symm
  have hkept := (h.kept hcalm).trans h.shown.symm
  rcases r.stage.behind with ⟨hlog, hkeep⟩ | ⟨t, ht, hshow, hkeep, hlog⟩
  · -- all three have come equally far
    rw [hlog] at hlogged
    rw [hkeep] at hkept
    rw [List.append_cancel_right hlogged, List.append_cancel_right hkept]
    exact ⟨List.prefix_rfl, List.prefix_rfl, .inl rfl⟩
  · rw [hshow, List.append_nil] at hlogged hkept
    rw [hkeep] at hkept
    refine ⟨?_, ⟨r.stage.unlogged, hlogged⟩, .inr ⟨t, ht, hkept.symm⟩⟩
    rcases hlog with hlog | hlog
    · rw [hlog, ← hkept] at hlogged
      have hsame : r.content = r.logged := (List.append_cancel_right hlogged).symm
      exact hsame ▸ List.prefix_rfl
    · rw [hlog, List.append_nil] at hlogged
      exact ⟨t, hkept.trans hlogged.symm⟩

/-- A reader that is over has kept all that it logged. -/
theorem Sound.logged_of_isOver (h : r.Sound taken) (hs : r.spoilt = false)
    (hover : r.isOver = true) : r.logged = r.content := by
  have hnone : r.stage.piece? = none := by
    unfold isOver fate? at hover
    cases hstage : r.stage <;> simp_all [Stage.piece?]
  obtain ⟨hkept, hlogged, hsame | ⟨t, ht, _⟩⟩ := h.levels hs
  · rw [hsame] at hlogged
    exact hlogged.eq_of_length_le hkept.length_le
  · rw [hnone] at ht
    cases ht

end Reader

namespace Capture

/-- What the log holds of one channel, piece by piece. -/
def entries (s : Capture) (c : Channel) : List Text :=
  (s.log.filter (·.1 = c)).map Prod.snd

/-- The bytes of the log. -/
def logBytes (s : Capture) : Bytes :=
  s.log.flatMap fun entry => entry.2.encode

/-- The events of one channel, in order. -/
def eventsOf (c : Channel) (events : List CaptureEvent) : List CaptureEvent :=
  events.filter (·.channel = c)

@[simp] theorem reader_setReader (s : Capture) (c d : Channel) (r : Reader) :
    (s.setReader d r).reader c = if d = c then r else s.reader c := by
  cases c <;> cases d <;> rfl

@[simp] theorem log_setReader (s : Capture) (c : Channel) (r : Reader) :
    (s.setReader c r).log = s.log := by
  cases c <;> rfl

/-- An event makes something of the reader of its channel alone. -/
theorem reader_step (s : Capture) (e : CaptureEvent) (c : Channel) :
    (s.step e).reader c = if e.channel = c then (s.reader c).follow e else s.reader c := by
  have hset : (s.step e).reader c =
      (s.setReader e.channel ((s.reader e.channel).follow e)).reader c := by
    cases e with
    | read d bytes => rfl
    | move d => cases c <;> rfl
  rw [hset, reader_setReader]
  by_cases h : e.channel = c
  · rw [if_pos h, if_pos h, h]
  · rw [if_neg h, if_neg h]

theorem log_step (s : Capture) (e : CaptureEvent) :
    (s.step e).log =
      s.log ++ ((s.reader e.channel).adds? e).toList.map fun t => (e.channel, t) := by
  cases e with
  | read d bytes => simp [step, Reader.adds?]
  | move d =>
      simp only [step, Reader.adds?, CaptureEvent.channel]
      cases (s.reader d).logs? <;> simp

theorem run_cons (s : Capture) (e : CaptureEvent) (events : List CaptureEvent) :
    s.run (e :: events) = (s.step e).run events := rfl

/-- **The readers do not disturb each other.** -/
theorem reader_run (s : Capture) (events : List CaptureEvent) (c : Channel) :
    (s.run events).reader c = (eventsOf c events).foldl Reader.follow (s.reader c) := by
  induction events generalizing s with
  | nil => rfl
  | cons e events ih =>
      rw [run_cons, ih, reader_step]
      by_cases hc : e.channel = c
      · simp [eventsOf, hc]
      · simp [eventsOf, hc]

theorem entries_step (s : Capture) (e : CaptureEvent) (c : Channel) :
    (s.step e).entries c =
      s.entries c ++ (if e.channel = c then ((s.reader c).adds? e).toList else []) := by
  rw [entries, log_step, List.filter_append, List.map_append, entries]
  by_cases hc : e.channel = c
  · subst hc
    cases (s.reader e.channel).adds? e <;> simp
  · cases (s.reader e.channel).adds? e <;> simp [hc]

/-- **Whole pieces, in order.**  The entries of a channel, and the piece that its reader has
still to log, are the pieces that its reads have brought. -/
theorem entries_run (s : Capture) (events : List CaptureEvent) (c : Channel) :
    (s.run events).entries c ++ ((s.run events).reader c).stage.toLog?.toList =
      s.entries c ++ (s.reader c).stage.toLog?.toList ++
        (s.reader c).pieces (eventsOf c events) := by
  induction events generalizing s with
  | nil => simp [run, eventsOf, Reader.pieces]
  | cons e events ih =>
      rw [run_cons, ih, entries_step, reader_step]
      by_cases hc : e.channel = c
      · have hadds := (s.reader c).adds_toLog e
        simp only [hc, if_true, eventsOf, List.filter_cons, decide_true, Reader.pieces,
          List.append_assoc] at hadds ⊢
        rw [← List.append_assoc _ _ (Reader.pieces _ _), hadds]
        simp
      · simp [eventsOf, hc]

theorem flatten_entries_run {s : Capture} {c : Channel}
    (h : (s.entries c).flatten = (s.reader c).logged) (events : List CaptureEvent) :
    ((s.run events).entries c).flatten = ((s.run events).reader c).logged := by
  induction events generalizing s with
  | nil => exact h
  | cons e events ih =>
      apply ih
      rw [entries_step, reader_step]
      by_cases hc : e.channel = c
      · simp [hc, Reader.logged_follow, h]
      · simp [hc, h]

/-- The readers of a capture are sound, and nobody has spoilt their content. -/
def Calm (s : Capture) : Prop :=
  ∀ c, (∃ taken, (s.reader c).Sound taken) ∧ (s.reader c).spoilt = false

theorem calm_start : start.Calm := by
  intro c
  cases c <;> exact ⟨⟨[], Reader.sound_start⟩, rfl⟩

theorem Calm.step {s : Capture} (h : s.Calm) (e : CaptureEvent) : (s.step e).Calm := by
  intro c
  obtain ⟨⟨taken, hsound⟩, hspoilt⟩ := h c
  rw [reader_step]
  split
  · exact ⟨hsound.follow e, by rw [Reader.spoilt_follow, hspoilt]⟩
  · exact ⟨⟨taken, hsound⟩, hspoilt⟩

theorem Calm.run {s : Capture} (h : s.Calm) (events : List CaptureEvent) : (s.run events).Calm := by
  induction events generalizing s with
  | nil => exact h
  | cons e events ih => exact ih (h.step e)

/-- The log is whole text: its bytes decode to the pieces in the order in which they were
added. -/
theorem encode_logText (s : Capture) : s.logText.encode = s.logBytes := by
  unfold logText logBytes
  induction s.log with
  | nil => rfl
  | cons entry log ih => simp [ih]

theorem size_logText (s : Capture) :
    s.logText.size = Text.size (s.entries .out).flatten + Text.size (s.entries .err).flatten := by
  unfold logText entries
  induction s.log with
  | nil => rfl
  | cons entry log ih =>
      obtain ⟨c, t⟩ := entry
      cases c <;> simp [ih] <;> omega

/-- With no text from one channel, the log is that of the other. -/
theorem logText_of_entries {s : Capture} {c d : Channel} (hcd : c ≠ d)
    (h : (s.entries d).flatten = []) : s.logText = (s.entries c).flatten := by
  unfold entries at h
  unfold logText entries
  generalize s.log = log at h ⊢
  induction log with
  | nil => rfl
  | cons entry log ih =>
      obtain ⟨e, t⟩ := entry
      by_cases he : e = d
      · subst he
        simp only [List.filter_cons, decide_true, if_true, List.map_cons, List.flatten_cons,
          List.append_eq_nil_iff] at h
        simp [h.1, ih h.2, hcd.symm]
      · have hc : e = c := by cases c <;> cases d <;> cases e <;> simp_all
        simp only [he, List.filter_cons, decide_false, Bool.false_eq_true, if_false] at h
        simp [ih h, hc]

/-- **What two readers leave in one log.**  In every state that they can come to, what was
kept of a channel begins what was logged of it, that begins what was shown, and they
differ by the piece at most that the reader is passing on; each reader is where its own
events alone bring it.  The log is made of whole pieces: those of a channel are in it in
the order in which its reads brought them, all but the piece that its reader has still to
log.  So the log decodes, and is as long as both logged texts.  Once both readers are
over, it is as long as what was kept of both channels, and is all of one if the other
brought nothing. -/
theorem log_law (events : List CaptureEvent) :
    let s := start.run events
    (∀ c, let r := s.reader c
      r = (eventsOf c events).foldl Reader.follow .start ∧
      r.content <+: r.logged ∧ r.logged <+: r.shown ∧
      (r.shown = r.content ∨ ∃ t, r.stage.piece? = some t ∧ r.shown = r.content ++ t) ∧
      (s.entries c).flatten = r.logged ∧
      ∃ rest, s.entries c ++ rest = Reader.start.pieces (eventsOf c events) ∧
        (rest = [] ∨ ∃ t, r.stage.piece? = some t ∧ rest = [t])) ∧
    Utf8.decode? s.logBytes = some s.logText ∧
    s.logBytes.length = s.out.logged.size + s.err.logged.size ∧
    (s.out.isOver = true → s.err.isOver = true →
      s.logBytes.length = s.out.content.size + s.err.content.size ∧
      (s.err.content = [] → s.logText = s.out.content) ∧
      (s.out.content = [] → s.logText = s.err.content)) := by
  intro s
  have hsize : s.logBytes.length = s.out.logged.size + s.err.logged.size := by
    rw [← encode_logText, Text.length_encode, size_logText, flatten_entries_run rfl,
      flatten_entries_run rfl]
    rfl
  refine ⟨fun c => ?_, ?_, hsize, fun hout herr => ?_⟩
  · obtain ⟨⟨taken, hsound⟩, hspoilt⟩ := calm_start.run events c
    obtain ⟨hkept, hlogged, hshown⟩ := hsound.levels hspoilt
    have hentries := entries_run start events c
    have hstart : (start.reader c) = .start := by cases c <;> rfl
    refine ⟨by rw [← hstart]; exact reader_run start events c, hkept, hlogged, hshown,
      flatten_entries_run (by cases c <;> rfl) events, (s.reader c).stage.toLog?.toList, ?_, ?_⟩
    · rw [hstart] at hentries
      exact hentries
    · cases ht : (s.reader c).stage.toLog? with
      | none => exact .inl rfl
      | some t => exact .inr ⟨t, Stage.piece_of_toLog ht, rfl⟩
  · rw [← encode_logText]
    exact Utf8.decode?_eq_some_iff.mpr rfl
  · have hkept : ∀ c, (s.reader c).isOver = true → (s.reader c).logged = (s.reader c).content := by
      intro c hover
      obtain ⟨⟨taken, hsound⟩, hspoilt⟩ := calm_start.run events c
      exact hsound.logged_of_isOver hspoilt hover
    have houtKept : s.out.logged = s.out.content := hkept .out hout
    have herrKept : s.err.logged = s.err.content := hkept .err herr
    have houtEntries : (s.entries .out).flatten = s.out.logged := flatten_entries_run rfl events
    have herrEntries : (s.entries .err).flatten = s.err.logged := flatten_entries_run rfl events
    refine ⟨by rw [hsize, houtKept, herrKept], fun hnone => ?_, fun hnone => ?_⟩
    · rw [logText_of_entries (c := .out) (d := .err) (by decide)
        (by rw [herrEntries, herrKept, hnone]), houtEntries, houtKept]
    · rw [logText_of_entries (c := .err) (d := .out) (by decide)
        (by rw [houtEntries, houtKept, hnone]), herrEntries, herrKept]

/-- A cut character on one channel, and on the other bytes that are no text. -/
theorem log_law_cut_and_failed :
    let events := [.read .out [0x68, 0xC3], .move .out, .read .err [0x65], .move .err,
      .move .err, .move .out, .move .err, .read .err [0xFF], .move .out, .move .err] ++
      wholeRead .out [0xA9] ++ wholeRead .out []
    let s := start.run events
    s.out.fate? = some .ended ∧ s.err.fate? = some .failed ∧ s.logText = ['e', 'h', 'é'] ∧
      s.out.content = ['h', 'é'] ∧ s.err.content = ['e'] ∧
      s.logBytes.length = s.out.content.size + s.err.content.size := by
  intro events s
  have hout : s.out.fate? = some .ended := by decide
  have herr : s.err.fate? = some .failed := by decide
  refine ⟨hout, herr, by decide, by decide, by decide, ?_⟩
  exact ((log_law events).2.2.2 (by rw [Reader.isOver]; exact congrArg Option.isSome hout)
    (by rw [Reader.isOver]; exact congrArg Option.isSome herr)).1

end Capture

end Offspring
