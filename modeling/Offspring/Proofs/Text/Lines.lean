import Offspring.Text.Lines
/-!
# The lines of a text that grows

A text that is cut after its last newline falls into whole lines and an open rest
(`Text.cutAfterNewline`).  What is added to the text later leaves the whole lines alone
(`Text.lines_cut_append`), while the rest is only the beginning of a line.  So a line of
the text so far is a line of the whole text, unless it is that rest
(`Text.mem_lines_append`).
-/

namespace Offspring.Text

/-- Some lines are lines of a text when each of them is one. -/
theorem hasLines_iff (expected : List Text) (t : Text) :
    hasLines expected t = true ↔ ∀ l ∈ expected, l ∈ t.lines := by
  simp [hasLines]

/-- What follows a newline makes lines of its own. -/
theorem linesFrom_append_newline (seen s more : Text) :
    linesFrom seen (s ++ '\n' :: more) = linesFrom seen (s ++ ['\n']) ++ more.lines := by
  induction s generalizing seen with
  | nil => simp [linesFrom, lines]
  | cons c s ih =>
      by_cases hc : c = '\n'
      · simp [linesFrom, hc, ih]
      · simp [linesFrom, hc, ih]

/-- A text without a newline adds to the line that was begun. -/
theorem linesFrom_of_newline_notMem {t : Text} (h : '\n' ∉ t) (seen : Text) :
    linesFrom seen t =
      if (t.reverse ++ seen).isEmpty then [] else [(t.reverse ++ seen).reverse] := by
  induction t generalizing seen with
  | nil => simp [linesFrom]
  | cons c t ih =>
      have hc : c ≠ '\n' := fun he => h (he ▸ List.mem_cons_self)
      have ht : '\n' ∉ t := fun hm => h (List.mem_cons_of_mem c hm)
      simp [linesFrom, hc, ih ht]

/-- The part before the cut is empty or ends in a newline. -/
theorem cutAfterNewline_fst (t : Text) :
    (cutAfterNewline t).1 = [] ∨ ∃ s, (cutAfterNewline t).1 = s ++ ['\n'] := by
  induction t with
  | nil => exact .inl rfl
  | cons c t ih =>
      unfold cutAfterNewline
      split
      · next rest h =>
        split
        · next hc => exact .inr ⟨[], by rw [hc]; rfl⟩
        · exact .inl rfl
      · next d ready rest h =>
        rw [h] at ih
        obtain ⟨s, hs⟩ := ih.resolve_left (by simp)
        exact .inr ⟨c :: s, by simpa using hs⟩

/-- **Whole lines stay.**  What comes after the cut does not touch the lines before it. -/
theorem lines_cut_append (t more : Text) :
    ((cutAfterNewline t).1 ++ more).lines = (cutAfterNewline t).1.lines ++ more.lines := by
  rcases cutAfterNewline_fst t with h | ⟨s, h⟩
  · rw [h]
    rfl
  · rw [h, List.append_assoc]
    exact linesFrom_append_newline [] s more

/-- The rest after the cut is one line, or none when it is empty. -/
theorem lines_rest (t : Text) :
    (cutAfterNewline t).2.lines =
      if (cutAfterNewline t).2 = [] then [] else [(cutAfterNewline t).2] := by
  rw [lines, linesFrom_of_newline_notMem (newline_notMem_cutAfterNewline t)]
  simp

/-- The lines of a text are its whole lines and the rest. -/
theorem mem_lines_iff {l t : Text} :
    l ∈ t.lines ↔ l ∈ (cutAfterNewline t).1.lines ∨
      (l = (cutAfterNewline t).2 ∧ (cutAfterNewline t).2 ≠ []) := by
  have hlines : t.lines = (cutAfterNewline t).1.lines ++ (cutAfterNewline t).2.lines := by
    rw [← lines_cut_append, cutAfterNewline_append]
  rw [hlines, List.mem_append, lines_rest]
  split
  · next h => simp [h]
  · next h => simp [h]

/-- **Only an open line can change.**  A line of a text is a line of every text that it
begins, unless it is the open rest. -/
theorem mem_lines_append {l t : Text} (h : l ∈ t.lines) (more : Text) :
    l ∈ (t ++ more).lines ∨ (l = (cutAfterNewline t).2 ∧ (cutAfterNewline t).2 ≠ []) := by
  rcases mem_lines_iff.mp h with hready | hrest
  · left
    rw [← cutAfterNewline_append t, List.append_assoc, lines_cut_append, List.mem_append]
    exact .inl hready
  · exact .inr hrest

/-- A text that ends in a newline has nothing after the cut. -/
theorem cutAfterNewline_of_ended (s : Text) :
    (s ++ ['\n']).cutAfterNewline = (s ++ ['\n'], []) := by
  induction s with
  | nil => rfl
  | cons c s ih =>
      rw [List.cons_append, cutAfterNewline, ih]
      cases s <;> rfl

/-- Without a newline there is nothing before the cut, however the text goes on. -/
theorem cutAfterNewline_append_of_notMem {r : Text} (h : '\n' ∉ r) (s : Text) :
    (s ++ r).cutAfterNewline = (s.cutAfterNewline.1, s.cutAfterNewline.2 ++ r) := by
  have hr : r.cutAfterNewline = ([], r) := by
    induction r with
    | nil => rfl
    | cons c r ih =>
        have hc : c ≠ '\n' := fun he => h (he ▸ List.mem_cons_self)
        have hrest : '\n' ∉ r := fun hm => h (List.mem_cons_of_mem c hm)
        simp [cutAfterNewline, ih hrest, hc]
  induction s with
  | nil => simpa [cutAfterNewline] using hr
  | cons c s ih =>
      rw [List.cons_append, cutAfterNewline, ih, cutAfterNewline]
      obtain ⟨ready, rest⟩ := cutAfterNewline s
      cases ready with
      | nil => by_cases hc : c = '\n' <;> simp [hc]
      | cons d ready => rfl

theorem linesFrom_of_ended {s : Text} (h : '\n' ∉ s) (seen : Text) :
    linesFrom seen (s ++ ['\n']) = [endLine (s.reverse ++ seen)] := by
  induction s generalizing seen with
  | nil => simp [linesFrom]
  | cons c s ih =>
      have hc : c ≠ '\n' := fun he => h (he ▸ List.mem_cons_self)
      have hs : '\n' ∉ s := fun hm => h (List.mem_cons_of_mem c hm)
      simp [linesFrom, hc, ih hs]

/-- A line that no carriage return ends is kept as it is. -/
theorem endLine_of_head? {t : Text} (h : t.head? ≠ some '\r') : endLine t = t.reverse := by
  unfold endLine
  split
  · simp at h
  · rfl

/-- A text with one newline, at its end, has one line. -/
theorem lines_of_ended {s : Text} (h : '\n' ∉ s) (hr : s.getLast? ≠ some '\r') :
    (s ++ ['\n']).lines = [s] := by
  rw [lines, linesFrom_of_ended h, List.append_nil, endLine_of_head?, List.reverse_reverse]
  rwa [List.head?_reverse]

end Offspring.Text
