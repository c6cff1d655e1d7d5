import Offspring.Capture.Collect
import Offspring.Proofs.Capture.Reader
import Offspring.Proofs.Text.Utf8Front
/-!
# When a reader fails

A reader is ready for its next read as long as some text begins with the bytes that it has
taken (`Reader.stage_feedAll_iff`).  A read makes it fail just when no text begins with them
any more, or when it is the end of the channel and they break off a character
(`Reader.Sound.fails_iff`).  Nothing of that read has gone anywhere: what was shown, logged
and kept is one text, the longest that the bytes before begin with, and no later read changes
that (`Reader.fails_at_once`).
-/

namespace Offspring

namespace Utf8

/-- The front of bytes that begin a text begins it too. -/
theorem Begins.of_prefix {front bs : Bytes} (h : Begins bs) (hfront : front <+: bs) :
    Begins front := by
  obtain ⟨t, ht⟩ := h
  exact ⟨t, hfront.trans ht⟩

/-- Bytes that break off a character begin the text that has all of it. -/
theorem BreaksOff.begins {bs : Bytes} (h : BreaksOff bs) : Begins bs := by
  obtain ⟨held, hcut⟩ := (scan_cut_iff bs).mpr h
  by_contra hnone
  have hill := (scan_illFormed_iff bs).mpr hnone
  rw [hcut] at hill
  cases hill

end Utf8

open Utf8

namespace Reader

variable {r : Reader} {taken : Bytes}

/-- Some text begins with the bytes that a reader has taken. -/
theorem Sound.begins (h : r.Sound taken) : Begins taken := by
  by_contra hnone
  exact h.decodes ((scan_illFormed_iff taken).mpr hnone)

/-- **What makes a reader fail.** -/
theorem Sound.fails_iff (h : r.Sound taken) (hr : r.stage = .reading) (read : Bytes) :
    (r.take read).stage = .leaving .failed ↔
      ¬ Begins (taken ++ read) ∨ (read = [] ∧ BreaksOff taken) := by
  rcases h.take hr read with ⟨hsound, t, hstage⟩ | ⟨hsound, hstage, hwhy⟩
  · -- the read is taken whole, so it can be decoded, and as the last one all of it
    rw [hstage]
    refine ⟨nofun, ?_⟩
    rintro (hnone | ⟨rfl, hbreaks⟩)
    · exact absurd hsound.begins hnone
    · have hwhole := hsound.last (by rw [hstage]; rfl)
      obtain ⟨held, hcut⟩ := (scan_cut_iff taken).mpr hbreaks
      rw [List.append_nil, hcut] at hwhole
      cases hwhole
  · refine ⟨fun _ => ?_, fun _ => hstage⟩
    rcases hwhy with hill | ⟨rfl, hopen⟩
    · exact .inl ((scan_illFormed_iff _).mp hill)
    · right
      refine ⟨rfl, (scan_cut_iff taken).mp ?_⟩
      cases hend : (scan .start taken).2 with
      | whole => exact absurd hend hopen
      | cut held => exact ⟨held, rfl⟩
      | illFormed => exact absurd hend h.decodes

/-- A reader that fails has taken nothing of the read that made it fail. -/
theorem Sound.of_failed (h : r.Sound taken) (hr : r.stage = .reading) {read : Bytes}
    (hfails : (r.take read).stage = .leaving .failed) : (r.take read).Sound taken := by
  rcases h.take hr read with ⟨_, t, hstage⟩ | ⟨hsound, _⟩
  · rw [hfails] at hstage
    cases hstage
  · exact hsound

/-- And it has passed on all that can be read of what it took before. -/
theorem Sound.passed_on (h : r.Sound taken) (hstage : r.stage = .leaving .failed) :
    r.content = (scan .start taken).1 ∧ r.shown = (scan .start taken).1 ∧
      r.logged = (scan .start taken).1 := by
  have hkept := h.kept (by rw [hstage]; exact nofun)
  have hshown := h.shown
  have hlogged := h.logged
  simp only [hstage, Stage.unkept, Stage.unshown, Stage.unlogged, List.append_nil]
    at hkept hshown hlogged
  exact ⟨hkept, hshown, hlogged⟩

variable {before : List Bytes}

/-- **A reader goes on as long as it can.** -/
theorem stage_feedAll_iff (hne : ∀ read ∈ before, read ≠ []) :
    (start.feedAll before).stage = .reading ↔ Begins before.flatten := by
  rcases sound_start.feedAll rfl rfl hne with ⟨_, hsound, hstage, _⟩ | ⟨hill, hstage⟩
  · exact ⟨fun _ => hsound.begins, fun _ => hstage⟩
  · rw [hstage]
    exact ⟨nofun, fun hbegins => absurd hbegins ((scan_illFormed_iff _).mp hill)⟩

theorem sound_feedAll (hne : ∀ read ∈ before, read ≠ [])
    (hstage : (start.feedAll before).stage = .reading) :
    (start.feedAll before).Sound before.flatten := by
  rcases sound_start.feedAll rfl rfl hne with ⟨_, hsound, _, _⟩ | ⟨_, hstop⟩
  · exact hsound
  · rw [hstage] at hstop
    cases hstop

/-- A reader that fails makes that known and does nothing more. -/
theorem feedAll_of_failed {read : Bytes}
    (hfails : ((start.feedAll before).take read).stage = .leaving .failed) (more : List Bytes) :
    start.feedAll (before ++ read :: more) =
      { (start.feedAll before).take read with stage := .stopped .failed } := by
  have hfeed : (start.feedAll before).feed read =
      { (start.feedAll before).take read with stage := .stopped .failed } := by
    simp only [feed, move, hfails]
  have hsplit : start.feedAll (before ++ read :: more) =
      ((start.feedAll before).feed read).feedAll more :=
    start.feedAll_append before (read :: more)
  rw [hsplit, hfeed]
  exact feedAll_of_stopped rfl more

/-- How a reader comes to the end of a channel. -/
theorem fate_feedAll_iff {reads : List Bytes} (hne : ∀ read ∈ reads, read ≠ []) :
    (start.feedAll (reads ++ [[]])).fate? = some .failed ↔
      ¬ Begins reads.flatten ∨ BreaksOff reads.flatten := by
  have hsplit : start.feedAll (reads ++ [[]]) = (start.feedAll reads).feed [] :=
    start.feedAll_append reads [[]]
  rw [hsplit, fate?]
  rcases sound_start.feedAll rfl rfl hne with ⟨_, hsound, hstage, hspoilt⟩ | ⟨hill, hstage⟩
  · have hiff := hsound.fails_iff hstage []
    simp only [List.nil_append, List.append_nil, true_and] at hiff
    rcases hsound.take hstage [] with ⟨_, t, hshow⟩ | ⟨_, hleave, _⟩
    · have hstop : ((start.feedAll reads).feed []).stage = .stopped .ended :=
        stage_moves_of_showing hshow (by rw [spoilt_take, hspoilt])
      rw [hshow] at hiff
      rw [hstop]
      constructor
      · intro hfate
        cases hfate
      · intro hwhy
        have hfails := hiff.mpr hwhy
        cases hfails
    · have hstop : ((start.feedAll reads).feed []).stage = .stopped .failed :=
        stage_moves_of_leaving hleave
      rw [hstop]
      exact ⟨fun _ => hiff.mp hleave, fun _ => rfl⟩
  · rw [feed_of_stopped hstage, hstage]
    exact ⟨fun _ => .inl ((scan_illFormed_iff _).mp hill), fun _ => rfl⟩

/-- The end of a channel, and no other read of it, is a read of nothing. -/
theorem end_of_reads {reads after : List Bytes} {read : Bytes}
    (hne : ∀ read ∈ reads, read ≠ []) (hsplit : reads ++ [[]] = before ++ read :: after) :
    (∀ earlier ∈ before, earlier ≠ []) ∧ (read = [] → before = reads ∧ after = []) := by
  rcases List.eq_nil_or_concat after with rfl | ⟨rest, last, rfl⟩
  · obtain ⟨rfl, hlast⟩ := List.append_inj' hsplit rfl
    exact ⟨hne, fun _ => ⟨rfl, rfl⟩⟩
  · have hfront : reads = before ++ read :: rest := by
      have hboth : reads ++ [[]] = (before ++ read :: rest) ++ [last] := by simp [hsplit]
      exact (List.append_inj' hboth rfl).1
    subst hfront
    refine ⟨fun earlier he => hne earlier (List.mem_append_left _ he), fun hread => ?_⟩
    exact absurd hread (hne read (List.mem_append_right _ List.mem_cons_self))

/-- **A reader fails as early as it can, and leaves things in order.**  Let a channel bring any
reads and then its end.  The reader fails at a read, having gone on with all before it, just when
some text begins with the bytes of the reads before, and with no fewer of them, but none with
those and that read; and it fails at the end just when the bytes of all reads break off a
character.  So a character that a read merely cuts makes no reader fail before the end.  When it
fails, what was kept, shown and logged is one text, and that is the longest with whose bytes the
reads before begin.  Whatever else the channel brings is not taken.  The failure says that the
bytes are no text. -/
theorem fails_at_once (reads : List Bytes) (hne : ∀ read ∈ reads, read ≠ []) :
    (∀ before read after, reads ++ [[]] = before ++ read :: after →
      let r := start.feedAll before
      let r' := r.take read
      let fails := r.stage = .reading ∧ r'.stage = .leaving .failed
      (r.stage = .reading ↔ Begins before.flatten) ∧
      (read ≠ [] → (fails ↔ (∀ front, front <+: before → Begins front.flatten) ∧
        ¬ Begins (before ++ [read]).flatten)) ∧
      (read = [] → before = reads ∧ after = [] ∧ (fails ↔ BreaksOff reads.flatten)) ∧
      (fails →
        r'.shown = r'.content ∧ r'.logged = r'.content ∧
        (∀ t : Text, t.encode <+: before.flatten ↔ t <+: r'.content) ∧
        ∀ more, start.feedAll (before ++ read :: more) =
          { r' with stage := .stopped .failed })) ∧
    ((start.feedAll (reads ++ [[]])).fate? = some .failed ↔
      ¬ Begins reads.flatten ∨ BreaksOff reads.flatten) ∧
    (∀ time deadline err exit spoilt, time ≤ deadline →
      Endings.collect ⟨some (time, .failed), err, exit⟩ deadline spoilt = .failed .illFormed) ∧
    Failure.illFormed.message = "invalid utf-8".toList := by
  refine ⟨?_, fate_feedAll_iff hne, ?_, rfl⟩
  · intro before read after hsplit r r' fails
    obtain ⟨hbefore, hend⟩ := end_of_reads hne hsplit
    have hready : r.stage = .reading ↔ Begins before.flatten := stage_feedAll_iff hbefore
    have hfails : fails ↔ Begins before.flatten ∧
        (¬ Begins (before.flatten ++ read) ∨ (read = [] ∧ BreaksOff before.flatten)) := by
      rw [← hready]
      exact and_congr_right fun hr => (sound_feedAll hbefore hr).fails_iff hr read
    refine ⟨hready, fun hread => ?_, fun hread => ?_, ?_⟩
    · rw [hfails, List.flatten_append, List.flatten_singleton]
      constructor
      · rintro ⟨hbegins, hnone | ⟨hnil, _⟩⟩
        · refine ⟨fun front hfront => hbegins.of_prefix ?_, hnone⟩
          obtain ⟨rest, rfl⟩ := hfront
          rw [List.flatten_append]
          exact List.prefix_append _ _
        · exact absurd hnil hread
      · rintro ⟨hall, hnone⟩
        exact ⟨hall before List.prefix_rfl, .inl hnone⟩
    · obtain ⟨rfl, rfl⟩ := hend hread
      refine ⟨rfl, rfl, ?_⟩
      rw [hfails, hread, List.append_nil]
      constructor
      · rintro ⟨hbegins, hnone | ⟨_, hbreaks⟩⟩
        · exact absurd hbegins hnone
        · exact hbreaks
      · intro hbreaks
        exact ⟨hbreaks.begins, .inr ⟨rfl, hbreaks⟩⟩
    · rintro ⟨hr, hstage⟩
      have hsound := sound_feedAll hbefore hr
      obtain ⟨hcontent, hshown, hlogged⟩ := (hsound.of_failed hr hstage).passed_on hstage
      refine ⟨hshown.trans hcontent.symm, hlogged.trans hcontent.symm, fun t => ?_,
        feedAll_of_failed hstage⟩
      rw [hcontent]
      exact encode_prefix_iff hsound.begins t
  · intro time deadline err exit spoilt htime
    simp only [Endings.collect, byDeadline, if_pos htime]

/-- Two reads that cut a character fail nobody; a third one that goes on with another byte does,
and so does the end of the channel in its place. -/
theorem fails_at_once_cut_character :
    let reads : List Bytes := [[0x68, 0xC3], [0xA9, 0xE2]]
    let after := start.feedAll reads
    (∀ read ∈ reads ++ [[0x28, 0x41]], read ≠ []) ∧
    after.stage = .reading ∧ (after.take [0x28, 0x41]).stage = .leaving .failed ∧
    (after.take []).stage = .leaving .failed ∧ after.content = ['h', 'é'] ∧
    ¬ Begins [0x68, 0xC3, 0xA9, 0xE2, 0x28, 0x41] ∧ BreaksOff [0x68, 0xC3, 0xA9, 0xE2] := by
  intro reads after
  have hne : ∀ read ∈ reads ++ [[0x28, 0x41]], read ≠ [] := by decide
  have hready : after.stage = .reading := by decide
  have hfails : (after.take [0x28, 0x41]).stage = .leaving .failed := by decide
  have hends : (after.take []).stage = .leaving .failed := by decide
  obtain ⟨_, hread, _⟩ := (fails_at_once (reads ++ [[0x28, 0x41]]) hne).1
    reads [0x28, 0x41] [[]] rfl
  obtain ⟨_, _, hend, _⟩ := (fails_at_once reads fun read hr =>
    hne read (List.mem_append_left _ hr)).1 reads [] [] rfl
  exact ⟨hne, hready, hfails, hends, by decide,
    ((hread nofun).mp ⟨hready, hfails⟩).2, (hend rfl).2.2.mp ⟨hready, hends⟩⟩

end Reader

end Offspring
