import Offspring.Proofs.Text.Lines
import Offspring.System.Stdout
/-!
# What has been written

Printing whole lines leaves nothing pending: all that was printed has been written.
Otherwise what is pending is a rest without a newline, and what has been written lags behind
what was printed by that much (`Stdout.Tracks`).  The room for pending bytes is the one
reason for more to be written than the whole lines and what the last flush found.
-/

namespace Offspring.Stdout

theorem hold_nil {o : Stdout} (h : o.pending = []) : o.hold [] = o := by
  obtain ⟨written, pending⟩ := o
  obtain rfl : pending = [] := h
  rfl

/-- A text that ends in a newline is written at once, with all that was pending. -/
theorem print_of_ended (o : Stdout) (s : Text) :
    o.print (s ++ ['\n']) = ⟨o.printed ++ (s ++ ['\n']), []⟩ := by
  have hwrite : o.print (s ++ ['\n']) = (o.write (s ++ ['\n'])).hold [] := by
    unfold print
    rw [Text.cutAfterNewline_of_ended]
    cases s <;> rfl
  rw [hwrite, hold_nil rfl]
  rfl

variable {o : Stdout} {t : Text} {forked : Nat}

/-- A text is held back beside what is pending, or has that written first, or is written
itself. -/
theorem hold_cases (o : Stdout) (t : Text) :
    (o.pending.size + t.size ≤ room ∧ t.size < room ∧
      o.hold t = ⟨o.written, o.pending ++ t⟩) ∨
    (room < o.pending.size + t.size ∧ t.size < room ∧ o.hold t = ⟨o.printed, t⟩) ∨
    (room ≤ t.size ∧ o.hold t = ⟨o.printed ++ t, []⟩) := by
  have hmake : (o.makeRoom t).printed = o.printed := printed_makeRoom o t
  by_cases hsize : t.size < room
  · by_cases hfits : o.pending.size + t.size ≤ room
    · exact .inl ⟨hfits, hsize, by simp only [hold, makeRoom, if_pos hfits, if_pos hsize]⟩
    · refine .inr (.inl ⟨by omega, hsize, ?_⟩)
      simp only [hold, makeRoom, if_neg hfits, if_pos hsize]
      rfl
  · refine .inr (.inr ⟨by omega, ?_⟩)
    simp only [hold, if_neg hsize, write, hmake]

theorem hold_size (o : Stdout) (t : Text) :
    o.bytesWritten ≤ (o.hold t).bytesWritten ∧
      (o.pending.size ≤ room → (o.hold t).pending.size ≤ room) ∧
      (o.pending.size + t.size < room → (o.hold t).bytesWritten = o.bytesWritten) := by
  rcases hold_cases o t with ⟨hfits, _, h⟩ | ⟨hfull, hlt, h⟩ | ⟨hlarge, h⟩
  · simp only [h, bytesWritten, Text.size_append, implies_true, and_true]
    omega
  · simp only [h, bytesWritten, printed, Text.size_append]
    omega
  · simp only [h, bytesWritten, printed, Text.size_append, Text.size_nil]
    omega

/-- What a text has before its last newline is written at once, and the rest held back. -/
theorem print_eq (o : Stdout) (t : Text) :
    o.print t = (if t.cutAfterNewline.1 = [] then o else o.write t.cutAfterNewline.1).hold
      t.cutAfterNewline.2 := by
  unfold print
  obtain ⟨ready, rest⟩ := t.cutAfterNewline
  cases ready <;> simp

/-- A text without a newline that takes all the room is written, as if it were a line. -/
theorem print_of_room_le (o : Stdout) (hline : '\n' ∉ t) (hsize : room ≤ t.size) :
    o.print t = ⟨o.printed ++ t, []⟩ := by
  have hcut := Text.cutAfterNewline_append_of_notMem hline []
  rw [List.nil_append] at hcut
  rw [print_eq, hcut]
  rcases o.hold_cases t with ⟨_, hlt, _⟩ | ⟨_, hlt, _⟩ | ⟨_, h⟩
  · omega
  · omega
  · exact h

theorem written_prefix_print (o : Stdout) (t : Text) : o.written <+: (o.print t).written := by
  have hhold : ∀ (o : Stdout) (t : Text), o.written <+: (o.hold t).written := by
    intro o t
    rcases hold_cases o t with ⟨_, _, h⟩ | ⟨_, _, h⟩ | ⟨_, h⟩ <;> simp [h, printed]
  rw [print_eq]
  split
  · exact hhold _ _
  · refine List.IsPrefix.trans ?_ (hhold _ _)
    simp [write, printed]

/-- What a print adds to the written text, and what it leaves pending, hang on what was
pending alone. -/
theorem exists_print (pending t : Text) :
    ∃ new rest, ∀ written, (⟨written, pending⟩ : Stdout).print t = ⟨written ++ new, rest⟩ := by
  have hhold : ∀ pending t : Text, ∃ new rest, ∀ written,
      (⟨written, pending⟩ : Stdout).hold t = ⟨written ++ new, rest⟩ := by
    intro pending t
    by_cases hsize : t.size < room
    · by_cases hfits : pending.size + t.size ≤ room
      · exact ⟨[], pending ++ t, fun written => by
          simp only [hold, makeRoom, if_pos hfits, if_pos hsize, List.append_nil]⟩
      · exact ⟨pending, t, fun written => by
          simp only [hold, makeRoom, if_neg hfits, if_pos hsize, flush, printed, List.nil_append]⟩
    · refine ⟨pending ++ t, [], fun written => ?_⟩
      simp only [hold, if_neg hsize, write, printed_makeRoom]
      simp only [printed, List.append_assoc]
  by_cases hready : t.cutAfterNewline.1 = []
  · obtain ⟨new, rest, h⟩ := hhold pending t.cutAfterNewline.2
    exact ⟨new, rest, fun written => by rw [print_eq, if_pos hready, h]⟩
  · obtain ⟨new, rest, h⟩ := hhold [] t.cutAfterNewline.2
    refine ⟨pending ++ t.cutAfterNewline.1 ++ new, rest, fun written => ?_⟩
    rw [print_eq, if_neg hready, write, h]
    simp [printed]

/-- What has been written when so much has been printed, and so much had been written at
the latest fork. -/
structure Tracks (o : Stdout) (t : Text) (forked : Nat) : Prop where
  printed : o.printed = t
  forked_le : forked ≤ o.bytesWritten
  lines_le : t.cutAfterNewline.1.size ≤ o.bytesWritten
  pending_le : o.pending.size ≤ room
  /-- More than that is written only when more than the room was printed. -/
  tight : t.size < max forked t.cutAfterNewline.1.size + room →
    o.bytesWritten = max forked t.cutAfterNewline.1.size

/-- What is written and what is pending make up what was printed. -/
theorem Tracks.size (h : o.Tracks t forked) : o.bytesWritten + o.pending.size = t.size := by
  rw [← h.printed, Stdout.printed, Text.size_append]
  rfl

theorem tracks_empty : empty.Tracks [] 0 where
  printed := rfl
  forked_le := Nat.zero_le _
  lines_le := Nat.zero_le _
  pending_le := Nat.zero_le _
  tight _ := rfl

theorem Tracks.flush (h : o.Tracks t forked) : o.flush.Tracks t t.size := by
  have hwritten : o.flush.bytesWritten = t.size := by
    rw [bytesWritten, written_flush, h.printed]
  have hcut : t.cutAfterNewline.1.size ≤ t.size := by
    have happend := congrArg Text.size t.cutAfterNewline_append
    rw [Text.size_append] at happend
    omega
  exact {
    printed := (printed_flush o).trans h.printed
    forked_le := by omega
    lines_le := by omega
    pending_le := Nat.zero_le _
    tight := by omega }

theorem Tracks.hold (h : o.Tracks t forked) {s : Text} (hs : '\n' ∉ s) :
    (o.hold s).Tracks (t ++ s) forked := by
  obtain ⟨hgrows, hpending, hsame⟩ := hold_size o s
  have hcut : (t ++ s).cutAfterNewline.1 = t.cutAfterNewline.1 := by
    rw [Text.cutAfterNewline_append_of_notMem hs]
  have hsize := h.size
  exact {
    printed := by rw [printed_hold, h.printed]
    forked_le := Nat.le_trans h.forked_le hgrows
    lines_le := by
      rw [hcut]
      exact Nat.le_trans h.lines_le hgrows
    pending_le := hpending h.pending_le
    tight := by
      -- so little was pending that the text fits beside it
      intro hshort
      rw [hcut, Text.size_append] at hshort
      have htight := h.tight (by omega)
      rw [hcut, hsame (by omega), htight] }

theorem Tracks.write (h : o.Tracks t forked) (s : Text) :
    (o.write (s ++ ['\n'])).Tracks (t ++ (s ++ ['\n'])) forked := by
  have hsize := h.size
  have hforked := h.forked_le
  have hwritten : (o.write (s ++ ['\n'])).bytesWritten = (t ++ (s ++ ['\n'])).size := by
    rw [bytesWritten, Stdout.write, h.printed]
  have hcut : (t ++ (s ++ ['\n'])).cutAfterNewline.1 = t ++ (s ++ ['\n']) := by
    rw [← List.append_assoc, Text.cutAfterNewline_of_ended]
  rw [Text.size_append] at hwritten
  exact {
    printed := by rw [printed_write, h.printed]
    forked_le := by omega
    lines_le := by rw [hcut, Text.size_append]; omega
    pending_le := Nat.zero_le _
    tight := by
      intro _
      rw [hcut, Text.size_append]
      omega }

/-- **A print keeps track.** -/
theorem Tracks.print (h : o.Tracks t forked) (s : Text) : (o.print s).Tracks (t ++ s) forked := by
  have hrest := Text.newline_notMem_cutAfterNewline s
  have happend := Text.cutAfterNewline_append s
  rw [print_eq]
  rcases Text.cutAfterNewline_fst s with hready | ⟨u, hready⟩
  · rw [hready, List.nil_append] at happend
    rw [if_pos hready, happend]
    exact h.hold (happend ▸ hrest)
  · have hwrite := (h.write u).hold hrest
    rw [if_neg (by simp [hready]), hready]
    rwa [← hready, List.append_assoc, happend, hready] at hwrite

end Offspring.Stdout
