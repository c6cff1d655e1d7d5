import Offspring.Capture.Reader
import Offspring.Proofs.Text.Utf8
/-!
# What a reader has done with its bytes

The bytes that a reader has taken determine what it holds: `Reader.Sound` says that
the tail, what was shown, what was logged and what was kept are all read off one scan
of the bytes taken, less the piece that the reader is still passing on.  Every read
and every move keeps this (`Reader.Sound.take`, `Reader.Sound.move`), and so a row of
reads ends as one scan of all its bytes says, wherever the reads cut them
(`Reader.Sound.feedAll`).
-/

namespace Offspring

namespace Stage

/-- The piece that is still to be shown. -/
def unshown : Stage → Text
  | .showing t _ => t
  | _ => []

/-- The piece that is still to be logged. -/
def unlogged : Stage → Text
  | .showing t _ => t
  | .logging t _ => t
  | _ => []

/-- The piece that is still to be kept. -/
def unkept : Stage → Text
  | .showing t _ => t
  | .logging t _ => t
  | .keeping t _ => t
  | _ => []

/-- Whether the channel has ended, and not inside a character. -/
def isLast : Stage → Bool
  | .showing _ last => last
  | .logging _ last => last
  | .keeping _ last => last
  | .leaving .ended => true
  | .stopped .ended => true
  | _ => false

/-- How the reader ends, once that is settled. -/
def fate? : Stage → Option Fate
  | .leaving f => some f
  | .stopped f => some f
  | _ => none

/-- Where a reader stands once a piece is kept. -/
theorem after_keeping (last : Bool) :
    let s : Stage := if last then .leaving .ended else .reading
    s.unshown = [] ∧ s.unlogged = [] ∧ s.unkept = [] ∧ s.isLast = last ∧
      s.fate? ≠ some .panicked := by
  cases last <;> simp [unshown, unlogged, unkept, isLast, fate?]

end Stage

/-- What reads and tail give when the bytes before them were well formed so far: either
the piece that the read completes, or a failure, and then the read is ill-formed or is
the end of the channel inside a character. -/
theorem decodeRead_cases {taken : Bytes} (h : (Utf8.scan .start taken).2 ≠ .illFormed)
    (read : Bytes) :
    (∃ t, decodeRead (Utf8.scan .start taken).2.held read =
          .piece t (Utf8.scan .start (taken ++ read)).2.held ∧
        (Utf8.scan .start (taken ++ read)).1 = (Utf8.scan .start taken).1 ++ t ∧
        (Utf8.scan .start (taken ++ read)).2 ≠ .illFormed ∧
        (read = [] → (Utf8.scan .start taken).2 = .whole)) ∨
    (decodeRead (Utf8.scan .start taken).2.held read = .illFormed ∧
      ((Utf8.scan .start (taken ++ read)).2 = .illFormed ∨
        (read = [] ∧ (Utf8.scan .start taken).2 ≠ .whole))) := by
  have hnil : (Utf8.scan .start taken).2 =
      (Utf8.scan .start ((Utf8.scan .start taken).2.held ++ [])).2 := by
    simpa using congrArg Prod.snd (Utf8.scan_append h [])
  rw [Utf8.scan_append h read]
  generalize Utf8.scan .start taken = before at h hnil ⊢
  unfold decodeRead
  split
  · next t ht =>
    refine .inl ⟨t, by rw [ht]; rfl, by rw [ht], by rw [ht]; simp, ?_⟩
    rintro rfl
    rw [hnil, ht]
  · next t held ht =>
    by_cases hread : read = []
    · subst hread
      refine .inr ⟨by simp, .inr ⟨rfl, ?_⟩⟩
      rw [hnil, ht]
      simp
    · refine .inl ⟨t, by rw [ht]; simp [hread, Utf8.Ending.held], by rw [ht], by rw [ht]; simp, ?_⟩
      exact fun hr => absurd hr hread
  · next t ht => exact .inr ⟨rfl, .inl (by rw [ht])⟩

namespace Reader

/-- What a reader holds, told from the bytes that it has taken and could decode. -/
structure Sound (r : Reader) (taken : Bytes) : Prop where
  decodes : (Utf8.scan .start taken).2 ≠ .illFormed
  tail : r.tail = (Utf8.scan .start taken).2.held
  shown : r.shown ++ r.stage.unshown = (Utf8.scan .start taken).1
  logged : r.logged ++ r.stage.unlogged = (Utf8.scan .start taken).1
  /-- Nothing is lost on the way to the content unless the reader panicked. -/
  kept : r.stage.fate? ≠ some .panicked →
    r.content ++ r.stage.unkept = (Utf8.scan .start taken).1
  /-- What is kept is the front of the text, also after a panic. -/
  content : r.content <+: (Utf8.scan .start taken).1
  /-- The channel does not end inside a character. -/
  last : r.stage.isLast = true → (Utf8.scan .start taken).2 = .whole
  /-- Only spoilt content makes a reader panic. -/
  panicked : r.stage.fate? = some .panicked → r.spoilt = true

/-- A reader is sound before its first read. -/
theorem sound_start : start.Sound [] where
  decodes := by simp [Utf8.scan, Utf8.State.ending]
  tail := rfl
  shown := rfl
  logged := rfl
  kept := fun _ => rfl
  content := List.prefix_rfl
  last := by simp [start, Stage.isLast]
  panicked := by simp [start, Stage.fate?]

variable {r : Reader} {taken : Bytes}

/-- A reader that is not about to read ignores what there is to read. -/
theorem take_of_not_reading (h : r.stage ≠ .reading) (read : Bytes) : r.take read = r := by
  unfold take
  split
  · next hr => exact absurd hr h
  · rfl

/-- A read is taken whole, or else it makes the reader fail. -/
theorem Sound.take (h : r.Sound taken) (hr : r.stage = .reading) (read : Bytes) :
    ((r.take read).Sound (taken ++ read) ∧
      (∃ t, (r.take read).stage = .showing t read.isEmpty)) ∨
    ((r.take read).Sound taken ∧ (r.take read).stage = .leaving .failed ∧
      ((Utf8.scan .start (taken ++ read)).2 = .illFormed ∨
        (read = [] ∧ (Utf8.scan .start taken).2 ≠ .whole))) := by
  have hshown := h.shown
  have hlogged := h.logged
  have hkept := h.kept
  simp only [hr, Stage.unshown, Stage.unlogged, Stage.unkept, Stage.fate?,
    List.append_nil] at hshown hlogged hkept
  unfold Reader.take
  simp only [hr, h.tail]
  rcases decodeRead_cases h.decodes read with ⟨t, hd, htext, hok, hend⟩ | ⟨hd, hwhy⟩
  · rw [hd]
    refine .inl ⟨?_, t, rfl⟩
    exact {
      decodes := hok
      tail := rfl
      shown := by simp [Stage.unshown, hshown, htext]
      logged := by simp [Stage.unlogged, hlogged, htext]
      kept := fun _ => by simp [Stage.unkept, hkept, htext]
      content := by
        rw [htext]
        exact h.content.trans (List.prefix_append _ _)
      last := by
        intro hl
        have hread : read = [] := by simpa [Stage.isLast] using hl
        subst hread
        simpa using hend rfl
      panicked := by simp [Stage.fate?] }
  · rw [hd]
    refine .inr ⟨?_, rfl, hwhy⟩
    exact {
      decodes := h.decodes
      tail := rfl
      shown := by simp [Stage.unshown, hshown]
      logged := by simp [Stage.unlogged, hlogged]
      kept := fun _ => by simp [Stage.unkept, hkept]
      content := h.content
      last := by simp [Stage.isLast]
      panicked := by simp [Stage.fate?] }

/-- A move passes the piece on and keeps what the reader knows. -/
theorem Sound.move (h : r.Sound taken) : r.move.Sound taken := by
  have hshown := h.shown
  have hlogged := h.logged
  have hkept := h.kept
  have hlast := h.last
  have hpanicked := h.panicked
  unfold Reader.move
  split
  all_goals
    rename_i hs
    simp only [hs, Stage.unshown, Stage.unlogged, Stage.unkept, Stage.isLast, Stage.fate?,
      List.append_nil, reduceCtorEq, ne_eq, not_false_eq_true, forall_const]
      at hshown hlogged hkept hlast hpanicked
  · -- the piece is shown
    exact { h with
      shown := by simpa [Stage.unshown] using hshown
      logged := by simpa [Stage.unlogged] using hlogged
      kept := fun _ => by simpa [Stage.unkept] using hkept
      last := by simpa [Stage.isLast] using hlast
      panicked := by simp [Stage.fate?] }
  · -- the piece is logged
    exact { h with
      shown := by simpa [Stage.unshown] using hshown
      logged := by simpa [Stage.unlogged] using hlogged
      kept := fun _ => by simpa [Stage.unkept] using hkept
      last := by simpa [Stage.isLast] using hlast
      panicked := by simp [Stage.fate?] }
  · next t last =>
    split
    · next hspoilt =>
      exact { h with
        shown := by simpa [Stage.unshown] using hshown
        logged := by simpa [Stage.unlogged] using hlogged
        kept := by simp [Stage.fate?]
        last := by simp [Stage.isLast]
        panicked := fun _ => hspoilt }
    · -- the piece is kept
      obtain ⟨hshow, hlog, hkeep, hend, hfate⟩ := Stage.after_keeping last
      exact { h with
        shown := by simpa [hshow] using hshown
        logged := by simpa [hlog] using hlogged
        kept := fun _ => by simpa [hkeep] using hkept
        content := by simp [hkept]
        last := by simpa [hend] using hlast
        panicked := fun hp => absurd hp hfate }
  · next f =>
    have hsame : (Stage.stopped f).isLast = (Stage.leaving f).isLast := by cases f <;> rfl
    exact { h with
      shown := by simpa [Stage.unshown] using hshown
      logged := by simpa [Stage.unlogged] using hlogged
      kept := by simpa [Stage.unkept, Stage.fate?] using hkept
      last := fun hl => h.last (by rw [hs, ← hsame]; exact hl)
      panicked := by simpa [Stage.fate?] using hpanicked }
  · exact h

theorem spoilt_take (r : Reader) (read : Bytes) : (r.take read).spoilt = r.spoilt := by
  unfold take
  repeat' split
  all_goals rfl

theorem spoilt_move (r : Reader) : r.move.spoilt = r.spoilt := by
  unfold move
  repeat' split
  all_goals rfl

/-- A reader that has stopped does nothing more. -/
theorem feed_of_stopped {f : Fate} (h : r.stage = .stopped f) (read : Bytes) :
    r.feed read = r := by
  have hmove : r.move = r := by simp [move, h]
  simp [feed, take_of_not_reading (r := r) (by simp [h]), hmove]

theorem feedAll_of_stopped {f : Fate} (h : r.stage = .stopped f) (reads : List Bytes) :
    r.feedAll reads = r := by
  induction reads with
  | nil => rfl
  | cons read reads ih =>
      rw [feedAll, List.foldl_cons, feed_of_stopped h]
      exact ih

theorem feedAll_append (r : Reader) (reads more : List Bytes) :
    r.feedAll (reads ++ more) = (r.feedAll reads).feedAll more :=
  List.foldl_append

/-- The moves after a read that gave a piece. -/
theorem stage_moves_of_showing {t : Text} {last : Bool} (h : r.stage = .showing t last)
    (hs : r.spoilt = false) :
    r.move.move.move.move.stage = if last then .stopped .ended else .reading := by
  cases last <;> simp [move, h, hs]

theorem stage_moves_of_leaving {f : Fate} (h : r.stage = .leaving f) :
    r.move.move.move.move.stage = .stopped f := by
  simp [move, h]

/-- A whole read of a reader that nobody disturbs: it is ready for the next one, or has
come to the end of the channel, or has failed. -/
theorem Sound.feed (h : r.Sound taken) (hr : r.stage = .reading) (hs : r.spoilt = false)
    (read : Bytes) :
    ((r.feed read).Sound (taken ++ read) ∧
      (r.feed read).stage = if read.isEmpty then .stopped .ended else .reading) ∨
    ((r.feed read).Sound taken ∧ (r.feed read).stage = .stopped .failed ∧
      ((Utf8.scan .start (taken ++ read)).2 = .illFormed ∨
        (read = [] ∧ (Utf8.scan .start taken).2 ≠ .whole))) := by
  have hs' : (r.take read).spoilt = false := by rw [spoilt_take, hs]
  rcases h.take hr read with ⟨hsound, t, hstage⟩ | ⟨hsound, hstage, hwhy⟩
  · exact .inl ⟨hsound.move.move.move.move, stage_moves_of_showing hstage hs'⟩
  · exact .inr ⟨hsound.move.move.move.move, stage_moves_of_leaving hstage, hwhy⟩

theorem spoilt_feed (r : Reader) (read : Bytes) : (r.feed read).spoilt = r.spoilt := by
  simp [Reader.feed, spoilt_move, spoilt_take]

theorem spoilt_feedAll (r : Reader) (reads : List Bytes) :
    (r.feedAll reads).spoilt = r.spoilt := by
  induction reads generalizing r with
  | nil => rfl
  | cons read reads ih => exact (ih (r.feed read)).trans (spoilt_feed r read)

/-- **One scan tells the end of all reads.**  After any row of reads the reader is where
a scan of all their bytes at once ends: ready to go on, with all of them accounted for,
or failed if that scan meets an ill-formed byte. -/
theorem Sound.feedAll (h : r.Sound taken) (hr : r.stage = .reading) (hs : r.spoilt = false)
    {reads : List Bytes} (hne : ∀ read ∈ reads, read ≠ []) :
    ((Utf8.scan .start (taken ++ reads.flatten)).2 ≠ .illFormed ∧
      (r.feedAll reads).Sound (taken ++ reads.flatten) ∧
      (r.feedAll reads).stage = .reading ∧ (r.feedAll reads).spoilt = false) ∨
    ((Utf8.scan .start (taken ++ reads.flatten)).2 = .illFormed ∧
      (r.feedAll reads).stage = .stopped .failed) := by
  induction reads generalizing r taken with
  | nil => exact .inl ⟨by simpa using h.decodes, by simpa [Reader.feedAll] using h, hr, hs⟩
  | cons read reads ih =>
      have hread : read ≠ [] := hne read List.mem_cons_self
      rw [List.flatten_cons, ← List.append_assoc]
      rcases h.feed hr hs read with ⟨hsound, hstage⟩ | ⟨_, hstage, hwhy⟩
      · have hstage' : (r.feed read).stage = .reading := by simpa [hread] using hstage
        exact ih hsound hstage' (by rw [spoilt_feed, hs])
          (fun read' hr' => hne read' (List.mem_cons_of_mem _ hr'))
      · have hill : (Utf8.scan .start (taken ++ read)).2 = .illFormed :=
          hwhy.resolve_right (fun hw => hread hw.1)
        refine .inr ⟨by rw [Utf8.scan_append_of_illFormed hill]; exact hill, ?_⟩
        have hrest : (r.feedAll (read :: reads)) = (r.feed read).feedAll reads := rfl
        rw [hrest, feedAll_of_stopped hstage, hstage]

/-- What a reader makes of a channel that ends: it finishes with the text that all reads
together encode, and fails when they encode none. -/
theorem feedAll_channel {reads : List Bytes} (hne : ∀ read ∈ reads, read ≠ []) :
    (∃ t : Text, t.encode = reads.flatten ∧
      (start.feedAll (reads ++ [[]])).fate? = some .ended ∧
      (start.feedAll (reads ++ [[]])).content = t ∧
      (start.feedAll (reads ++ [[]])).shown = t ∧
      (start.feedAll (reads ++ [[]])).logged = t) ∨
    ((∀ t : Text, t.encode ≠ reads.flatten) ∧
      (start.feedAll (reads ++ [[]])).fate? = some .failed) := by
  have hsplit : start.feedAll (reads ++ [[]]) = (start.feedAll reads).feed [] :=
    start.feedAll_append reads [[]]
  rw [hsplit]
  rcases sound_start.feedAll rfl rfl hne with ⟨_, hsound, hstage, hspoilt⟩ | ⟨hill, hstage⟩
  · rw [List.nil_append] at hsound
    rcases hsound.feed hstage hspoilt [] with ⟨hend, hstop⟩ | ⟨_, hstop, hwhy⟩
    · simp only [List.append_nil, List.isEmpty_nil, if_true] at hend hstop
      have hwhole := hend.last (by simp [hstop, Stage.isLast])
      refine .inl ⟨(Utf8.scan .start reads.flatten).1, ?_, by simp [fate?, hstop], ?_, ?_, ?_⟩
      · simpa [hwhole, Utf8.Ending.held] using Utf8.encode_of_scan hend.decodes
      · simpa [hstop, Stage.unkept, Stage.fate?] using hend.kept
      · simpa [hstop, Stage.unshown] using hend.shown
      · simpa [hstop, Stage.unlogged] using hend.logged
    · refine .inr ⟨?_, by simp [fate?, hstop]⟩
      rintro t ht
      rw [List.append_nil, ← ht, Utf8.scan_encode] at hwhy
      simp at hwhy
  · rw [feed_of_stopped hstage]
    refine .inr ⟨?_, by simp [fate?, hstage]⟩
    rintro t ht
    rw [List.nil_append, ← ht, Utf8.scan_encode] at hill
    cases hill

/-- **Only the bytes of a channel count, not the reads that bring them.**  A reader
finishes exactly when the bytes of all reads together encode a text, and otherwise
fails; having finished, it has shown, logged and kept exactly that text.  So all ways to
cut the same bytes into reads end alike. -/
theorem feedAll_any_cutting (reads : List Bytes) (hne : ∀ read ∈ reads, read ≠ []) :
    let r := start.feedAll (reads ++ [[]])
    (r.fate? = some .ended ↔ ∃ t : Text, t.encode = reads.flatten) ∧
    (r.fate? = some .ended ∨ r.fate? = some .failed) ∧
    (∀ t : Text, t.encode = reads.flatten →
      r.content = t ∧ r.shown = t ∧ r.logged = t) ∧
    ∀ others : List Bytes, (∀ read ∈ others, read ≠ []) →
      others.flatten = reads.flatten →
      let r' := start.feedAll (others ++ [[]])
      r'.fate? = r.fate? ∧ (r.fate? = some .ended →
        r'.content = r.content ∧ r'.shown = r.shown ∧ r'.logged = r.logged) := by
  intro r
  rcases feedAll_channel hne with ⟨t, ht, hfate, hcontent, hshown, hlogged⟩ | ⟨hno, hfate⟩
  · have hsame : ∀ u : Text, u.encode = reads.flatten → u = t := fun u hu =>
      Utf8.encode_injective (hu.trans ht.symm)
    refine ⟨⟨fun _ => ⟨t, ht⟩, fun _ => hfate⟩, .inl hfate, ?_, ?_⟩
    · intro u hu
      rw [hsame u hu]
      exact ⟨hcontent, hshown, hlogged⟩
    · intro others hothers hflat
      rcases feedAll_channel hothers with ⟨u, hu, hfate', hcontent', hshown', hlogged'⟩ |
        ⟨hno, _⟩
      · obtain rfl := hsame u (hu.trans hflat)
        exact ⟨hfate'.trans hfate.symm, fun _ => ⟨hcontent'.trans hcontent.symm,
          hshown'.trans hshown.symm, hlogged'.trans hlogged.symm⟩⟩
      · exact absurd (ht.trans hflat.symm) (hno t)
  · have hnot : r.fate? ≠ some .ended := by
      rw [hfate]
      simp
    refine ⟨⟨fun h => absurd h hnot, fun ⟨t, ht⟩ => absurd ht (hno t)⟩, .inr hfate,
      fun t ht => absurd ht (hno t), ?_⟩
    intro others hothers hflat
    rcases feedAll_channel hothers with ⟨u, hu, _⟩ | ⟨_, hfate'⟩
    · exact absurd (hu.trans hflat) (hno u)
    · exact ⟨hfate'.trans hfate.symm, fun h => absurd h hnot⟩

/-- Characters of two and of three bytes, cut by three reads. -/
theorem feedAll_cut_characters :
    (∀ read ∈ ([[0x68, 0xC3], [0xA9, 0xE2], [0x82], [0xAC]] : List Bytes), read ≠ []) ∧
    Text.encode ['h', 'é', '€'] = [0x68, 0xC3, 0xA9, 0xE2, 0x82, 0xAC] ∧
    (start.feedAll [[0x68, 0xC3], [0xA9, 0xE2], [0x82], [0xAC], []]).content =
      ['h', 'é', '€'] := by
  have hne : ∀ read ∈ ([[0x68, 0xC3], [0xA9, 0xE2], [0x82], [0xAC]] : List Bytes),
      read ≠ [] := by decide
  have henc : Text.encode ['h', 'é', '€'] = [0x68, 0xC3, 0xA9, 0xE2, 0x82, 0xAC] := by decide
  exact ⟨hne, henc, ((feedAll_any_cutting _ hne).2.2.1 _ henc).1⟩

end Reader

end Offspring
