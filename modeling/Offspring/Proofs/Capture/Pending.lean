import Mathlib.Order.Bounds.Basic
import Offspring.Proofs.Capture.Reader
import Offspring.Proofs.Text.Utf8Front
/-!
# What is pending between two reads

Between two reads a reader has the bytes that it took, those of its content and then the pending
ones, and what is pending is the beginning of one character (`Reader.Between`).  A read that can
be decoded at all is decoded to the end of its last whole character: that is the greatest length
at which the pending bytes and the read are text (`Utf8.isGreatest_size_scan`), so they can be
decoded again up to there and cut there.  Every read that does not fail keeps this
(`Reader.Between.feed`), and so it holds between any reads (`Reader.Between.feedAll`).
-/

namespace Offspring

namespace Utf8

/-- Nothing is pending, or some but not all bytes of one character are. -/
def PartOfOne (bs : Bytes) : Prop :=
  bs = [] ∨ ∃ (c : Char) (missing : Bytes), missing ≠ [] ∧
    String.utf8EncodeChar c = bs ++ missing

theorem PartOfOne.length_le {bs : Bytes} (h : PartOfOne bs) : bs.length ≤ 3 := by
  rcases h with rfl | ⟨c, missing, hmissing, hc⟩
  · exact Nat.zero_le 3
  · have hlength := congrArg List.length hc
    have hpos := List.length_pos_iff.mpr hmissing
    have hfour := c.utf8Size_le_four
    rw [String.length_utf8EncodeChar, List.length_append] at hlength
    omega

/-- What a scan holds at its end is part of one character. -/
theorem partOfOne_held_scan (bs : Bytes) : PartOfOne (scan .start bs).2.held := by
  cases hend : (scan .start bs).2 with
  | whole => exact .inl rfl
  | cut held =>
      obtain ⟨_, missing, c, hmissing, hc⟩ := cut_of_scan hend
      exact .inr ⟨c, missing, hmissing, hc⟩
  | illFormed => exact .inl rfl

theorem encode_of_begins {bs : Bytes} (h : Begins bs) :
    (scan .start bs).1.encode ++ (scan .start bs).2.held = bs :=
  encode_of_scan fun hill => (scan_illFormed_iff bs).mp hill h

/-- The text of a scan is at the front of the bytes, and what is held comes after it. -/
theorem take_size_scan {bs : Bytes} (h : Begins bs) :
    (scan .start bs).1.size ≤ bs.length ∧
      bs.take (scan .start bs).1.size = (scan .start bs).1.encode ∧
      bs.drop (scan .start bs).1.size = (scan .start bs).2.held := by
  have hbytes := encode_of_begins h
  generalize (scan .start bs).1 = t at hbytes ⊢
  generalize (scan .start bs).2.held = held at hbytes ⊢
  subst hbytes
  rw [← Text.length_encode]
  exact ⟨(List.prefix_append _ _).length_le, List.take_left, List.drop_left⟩

/-- **How much of some bytes is text.**  The text of a scan ends at the greatest length at which
the bytes are text. -/
theorem isGreatest_size_scan {bs : Bytes} (h : Begins bs) :
    IsGreatest {n | n ≤ bs.length ∧ ∃ t : Text, t.encode = bs.take n}
      (scan .start bs).1.size := by
  obtain ⟨hsize, hfront, _⟩ := take_size_scan h
  refine ⟨⟨hsize, _, hfront.symm⟩, ?_⟩
  rintro n ⟨hn, t, ht⟩
  obtain ⟨more, hmore⟩ : t <+: (scan .start bs).1 :=
    (encode_prefix_iff h t).mp (ht ▸ List.take_prefix n bs)
  have hlength := congrArg List.length ht
  rw [Text.length_encode, List.length_take, Nat.min_eq_left hn] at hlength
  rw [← hmore, Text.size_append]
  omega

end Utf8

open Utf8

/-- A read is refused when no text begins with the pending bytes and the read, or when it is the
end and they break off a character.  Otherwise it gives the text of a scan, and what the scan
holds at its end is pending, which is nothing at the end. -/
theorem decodeRead_spec (tail read : Bytes) :
    let pending := tail ++ read
    let refused := ¬ Begins pending ∨ (read = [] ∧ BreaksOff pending)
    (refused ∧ decodeRead tail read = .illFormed) ∨
    (¬ refused ∧ (read = [] → (scan .start pending).2.held = []) ∧
      decodeRead tail read = .piece (scan .start pending).1 (scan .start pending).2.held) := by
  intro pending refused
  have hbegins := scan_illFormed_iff pending
  have hbreaks := scan_cut_iff pending
  unfold decodeRead
  split
  · next t ht =>
    right
    rw [ht] at hbegins hbreaks ⊢
    refine ⟨?_, fun _ => rfl, rfl⟩
    rintro (hnone | ⟨_, hbreak⟩)
    · cases hbegins.mpr hnone
    · obtain ⟨held, hcut⟩ := hbreaks.mpr hbreak
      cases hcut
  · next t held ht =>
    rw [ht] at hbegins hbreaks ⊢
    by_cases hread : read = []
    · exact .inl ⟨.inr ⟨hread, hbreaks.mp ⟨held, rfl⟩⟩, by simp [hread]⟩
    · right
      refine ⟨?_, fun h => absurd h hread, by simp [hread, Ending.held]⟩
      rintro (hnone | ⟨h, _⟩)
      · cases hbegins.mpr hnone
      · exact hread h
  · next t ht =>
    rw [ht] at hbegins
    exact .inl ⟨.inl (hbegins.mp rfl), rfl⟩

namespace Reader

variable {r : Reader} {taken read : Bytes}

/-- A read that gives no piece makes the reader stop, and nothing else. -/
theorem feed_of_illFormed (hr : r.stage = .reading) (hd : decodeRead r.tail read = .illFormed) :
    r.feed read = { r with stage := .stopped .failed } := by
  simp only [feed, take, hr, hd, move]

/-- A piece is shown, logged and kept, and the length of the content is published. -/
theorem feed_of_piece {t : Text} {tail : Bytes} (hr : r.stage = .reading)
    (hs : r.spoilt = false) (hd : decodeRead r.tail read = .piece t tail) :
    r.feed read = { r with
      stage := if read = [] then .stopped .ended else .reading
      tail := tail
      shown := r.shown ++ t
      logged := r.logged ++ t
      content := r.content ++ t
      published := (r.content ++ t).size :: r.published } := by
  have htake : r.take read = { r with stage := .showing t read.isEmpty, tail := tail } := by
    simp only [take, hr, hd]
  rw [feed, htake]
  cases read <;> simp [move, hs]

/-- What holds of a reader that has taken some bytes, between two reads and at the end. -/
structure Between (r : Reader) (taken : Bytes) : Prop where
  /-- No byte is lost, added or moved. -/
  bytes : r.content.encode ++ r.tail = taken
  tail : PartOfOne r.tail
  /-- The content has the length that was published last. -/
  length : r.length = r.content.size
  /-- No length was published after a greater one. -/
  rising : r.published.Pairwise (· ≥ ·)
  calm : r.spoilt = false

theorem between_start : start.Between [] := ⟨rfl, .inl rfl, rfl, .nil, rfl⟩

/-- Every length published is at most the last one. -/
theorem le_length_of_mem (h : r.published.Pairwise (· ≥ ·)) : ∀ n ∈ r.published, n ≤ r.length := by
  unfold Reader.length
  cases hp : r.published with
  | nil => exact nofun
  | cons last earlier =>
      rw [hp] at h
      exact List.forall_mem_cons.mpr ⟨Nat.le_refl last, (List.pairwise_cons.mp h).1⟩

/-- **A read that does not fail keeps it all.** -/
theorem Between.feed (h : r.Between taken) (hr : r.stage = .reading)
    (hbegins : Begins (r.tail ++ read))
    (hd : decodeRead r.tail read = .piece (scan .start (r.tail ++ read)).1
      (scan .start (r.tail ++ read)).2.held) : (r.feed read).Between (taken ++ read) := by
  have hbytes := encode_of_begins hbegins
  rw [feed_of_piece hr h.calm hd]
  refine ⟨?_, partOfOne_held_scan _, rfl, ?_, h.calm⟩
  · simp only
    rw [Text.encode_append, List.append_assoc, hbytes, ← List.append_assoc, h.bytes]
  · refine List.pairwise_cons.mpr ⟨fun n hn => ?_, h.rising⟩
    have hlast := le_length_of_mem h.rising n hn
    rw [h.length] at hlast
    rw [Text.size_append]
    omega

/-- **So it holds between any reads**, as long as the reader goes on. -/
theorem Between.feedAll (h : r.Between taken) (hr : r.stage = .reading) {reads : List Bytes}
    (hend : (r.feedAll reads).stage = .reading) :
    (r.feedAll reads).Between (taken ++ reads.flatten) := by
  induction reads generalizing r taken with
  | nil => simpa [Reader.feedAll] using h
  | cons read reads ih =>
      have hrest : r.feedAll (read :: reads) = (r.feed read).feedAll reads := rfl
      have hopen : ∀ f, (r.feed read).stage ≠ .stopped f := by
        intro f hstop
        rw [hrest, feedAll_of_stopped hstop, hstop] at hend
        cases hend
      rw [hrest] at hend ⊢
      rw [List.flatten_cons, ← List.append_assoc]
      rcases decodeRead_spec r.tail read with ⟨_, hd⟩ | ⟨haccepted, _, hd⟩
      · exact absurd (by rw [feed_of_illFormed hr hd]) (hopen .failed)
      · obtain ⟨hbegins, _⟩ := not_or.mp haccepted
        have hstage : (r.feed read).stage = if read = [] then .stopped .ended else .reading := by
          rw [feed_of_piece hr h.calm hd]
        split at hstage
        · exact absurd hstage (hopen .ended)
        · exact ih (h.feed hr (not_not.mp hbegins) hd) hstage hend

/-- **What a reader keeps between reads.**  Let a reader have gone on with any reads and take one
more, the end if it is empty.  It fails just when no text begins with what was pending and the
read, or when that is the end of the channel inside a character.  Otherwise it is ready for the
next read, or has ended.  Then the bytes of its content and the pending ones are all bytes that
it has read; at most three are pending, and they are the beginning of one character but not all
of it; the length that it has published is that of the content, and no length before was greater.
What the read added to the content is the text of the pending bytes up to the greatest length at
which they are text, and those after it are pending now.  At the end nothing is. -/
theorem pending_law (before : List Bytes) (read : Bytes) :
    let r := start.feedAll before
    let r' := r.feed read
    let pending := r.tail ++ read
    r.stage = .reading →
      (r'.stage = .stopped .failed ↔ ¬ Begins pending ∨ (read = [] ∧ BreaksOff pending)) ∧
      (r'.stage ≠ .stopped .failed →
        r'.stage = (if read = [] then .stopped .ended else .reading) ∧
        r'.content.encode ++ r'.tail = (before ++ [read]).flatten ∧
        r'.tail.length ≤ 3 ∧ PartOfOne r'.tail ∧
        r'.length = r'.content.size ∧ r'.published = r'.length :: r.published ∧
        (∀ n ∈ r.published, n ≤ r'.length) ∧
        (∃ piece : Text,
          IsGreatest {n | n ≤ pending.length ∧ ∃ t : Text, t.encode = pending.take n} piece.size ∧
          decode? (pending.take piece.size) = some piece ∧
          r'.content = r.content ++ piece ∧ r'.tail = pending.drop piece.size) ∧
        (r'.stage = .stopped .ended → r'.tail = [])) := by
  intro r r' pending hr
  have hbetween : r.Between before.flatten := by
    simpa using between_start.feedAll rfl hr
  rcases decodeRead_spec r.tail read with ⟨hrefused, hd⟩ | ⟨haccepted, hlast, hd⟩
  · have hfailed : r'.stage = .stopped .failed := by
      simp only [r', feed_of_illFormed hr hd]
    exact ⟨⟨fun _ => hrefused, fun _ => hfailed⟩, fun hgood => absurd hfailed hgood⟩
  · have hbegins : Begins pending := not_not.mp (not_or.mp haccepted).1
    have hafter := feed_of_piece hr hbetween.calm hd
    have hstage : r'.stage = if read = [] then .stopped .ended else .reading := by
      simp only [r', hafter]
    have hgood : r'.stage ≠ .stopped .failed := by
      rw [hstage]
      split <;> exact nofun
    have hnow : r'.Between (before.flatten ++ read) := hbetween.feed hr hbegins hd
    obtain ⟨_, hfront, hback⟩ := take_size_scan hbegins
    have hpublished : r'.published = r'.length :: r.published := by
      simp only [r', hafter, Reader.length, List.headD_cons]
    refine ⟨⟨fun h => absurd h hgood, fun h => absurd h haccepted⟩, fun _ => ?_⟩
    refine ⟨hstage, ?_, hnow.tail.length_le, hnow.tail, hnow.length, hpublished, ?_,
      ⟨(scan .start pending).1, isGreatest_size_scan hbegins, ?_, ?_, ?_⟩, ?_⟩
    · rw [hnow.bytes, List.flatten_append, List.flatten_singleton]
    · have hrising := hnow.rising
      rw [hpublished] at hrising
      exact (List.pairwise_cons.mp hrising).1
    · exact decode?_eq_some_iff.mpr hfront.symm
    · simp only [r', hafter, pending]
    · simp only [r', hafter, hback, pending]
    · intro hended
      have hread : read = [] := by
        rw [hstage] at hended
        split at hended
        · assumption
        · cases hended
      simp only [r', hafter]
      exact hlast hread

/-- A character of three bytes that three reads bring one by one, and the end after it. -/
theorem pending_law_three_reads :
    let before : List Bytes := [[0x68, 0xE2], [0x82]]
    let r := start.feedAll before
    let done := start.feedAll [[0x68, 0xE2], [0x82], [0xAC]]
    r.stage = .reading ∧ r.tail = [0xE2, 0x82] ∧ r.published = [1, 1] ∧
    (r.feed [0xAC]).stage ≠ .stopped .failed ∧
    (r.feed [0xAC]).content.encode ++ (r.feed [0xAC]).tail = [0x68, 0xE2, 0x82, 0xAC] ∧
    (∀ n ∈ r.published, n ≤ (r.feed [0xAC]).length) ∧
    (done.feed []).stage = .stopped .ended ∧ (done.feed []).tail = [] := by
  intro before r done
  have hready : r.stage = .reading := by decide
  have hgood : (r.feed [0xAC]).stage ≠ .stopped .failed := by decide
  have hended : (done.feed []).stage = .stopped .ended := by decide
  obtain ⟨_, hbytes, _, _, _, _, hrising, _⟩ := (pending_law before [0xAC] hready).2 hgood
  obtain ⟨_, _, _, _, _, _, _, _, hnone⟩ :=
    (pending_law [[0x68, 0xE2], [0x82], [0xAC]] [] (by decide)).2 (by decide)
  exact ⟨hready, by decide, by decide, hgood, hbytes, hrising, hended, hnone hended⟩

end Reader

end Offspring
