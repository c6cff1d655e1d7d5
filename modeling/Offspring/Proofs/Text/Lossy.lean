import Offspring.Proofs.Text.Utf8
/-!
# Reading any bytes invents nothing

A lossy reader takes any bytes in one of five steps (`reading_induction`).  It reads the bytes of
a text as that text (`lossy_encode`), and puts a replacement character where bytes are no
character.  Every other character it gives is one that the bytes spell in one piece
(`encode_infix_of_mem_lossy`), so a character of one byte is read only where that byte is
(`mem_of_mem_lossy`).
-/

namespace Offspring.Utf8

section Moves

variable {q : State} {b : UInt8}

theorem lossyFrom_cons_of_into {q' : State} (bs : Bytes) (h : q.step b = .into q') :
    lossyFrom q (b :: bs) = lossyFrom q' bs := by
  cases q <;> simp only [lossyFrom, h]

theorem lossyFrom_cons_of_char {c : Char} (bs : Bytes) (h : q.step b = .char c) :
    lossyFrom q (b :: bs) = c :: lossyFrom .start bs := by
  cases q <;> simp only [lossyFrom, h]

theorem lossyFrom_start_of_refuse (bs : Bytes) (h : opens b = .refuse) :
    lossyFrom .start (b :: bs) = replacement :: lossyFrom .start bs := by
  simp only [lossyFrom, State.step, h]

/-- The byte that breaks a character is read as if nothing had been open. -/
theorem lossyFrom_inside_of_refuse {held : Bytes} {value : Nat} {next : Span}
    {later : List Span} (bs : Bytes) (h : (State.inside held value next later).step b = .refuse) :
    lossyFrom (.inside held value next later) (b :: bs) =
      replacement :: lossyFrom .start (b :: bs) := by
  cases hb : opens b with
  | into q' => rw [lossyFrom_cons_of_into (q := .start) bs hb]; simp only [lossyFrom, h, hb]
  | char c => rw [lossyFrom_cons_of_char (q := .start) bs hb]; simp only [lossyFrom, h, hb]
  | refuse => rw [lossyFrom_start_of_refuse bs hb]; simp only [lossyFrom, h, hb]

end Moves

/-- **How any bytes are read**: on into a character, to the end of one, past a byte that begins
none, or back to the byte that broke a character off, which is read afresh. -/
@[elab_as_elim]
theorem reading_induction {motive : State → Bytes → Prop}
    (nil : ∀ q, motive q [])
    (into : ∀ q b bs q', q.step b = .into q' → motive q' bs → motive q (b :: bs))
    (char : ∀ q b bs c, q.step b = .char c → motive .start bs → motive q (b :: bs))
    (refuse : ∀ b bs, opens b = .refuse → motive .start bs → motive .start (b :: bs))
    (afresh : ∀ held value next later b bs, (State.inside held value next later).step b = .refuse →
      motive .start (b :: bs) → motive (.inside held value next later) (b :: bs))
    (q : State) (bs : Bytes) : motive q bs := by
  induction bs generalizing q with
  | nil => exact nil q
  | cons b bs ih =>
      have hstart : motive .start (b :: bs) := by
        cases hb : opens b with
        | into q' => exact into .start b bs q' hb (ih q')
        | char c => exact char .start b bs c hb (ih .start)
        | refuse => exact refuse b bs hb (ih .start)
      cases q with
      | start => exact hstart
      | inside held value next later =>
          cases hb : (State.inside held value next later).step b with
          | into q' => exact into _ b bs q' hb (ih q')
          | char c => exact char _ b bs c hb (ih .start)
          | refuse => exact afresh held value next later b bs hb hstart

/-- Bytes that a scan takes to their end, between characters, are read alike by both readers. -/
theorem lossyFrom_of_scan {q : State} {bs : Bytes} {t : Text}
    (h : scan q bs = (t, .whole)) : lossyFrom q bs = t := by
  induction bs generalizing q t with
  | nil =>
      cases q with
      | start => exact congrArg Prod.fst h
      | inside held value next later => cases h
  | cons b bs ih =>
      cases hb : q.step b with
      | into q' =>
          rw [scan_cons_of_into bs hb] at h
          rw [lossyFrom_cons_of_into bs hb]
          exact ih h
      | char c =>
          rw [scan_cons_of_char bs hb] at h
          obtain ⟨rfl, hend⟩ := Prod.mk.inj h
          rw [lossyFrom_cons_of_char bs hb, ih (Prod.ext rfl hend)]
      | refuse =>
          simp only [scan, hb] at h
          cases h

/-- A text is read back from its bytes. -/
theorem lossy_encode (t : Text) : lossy t.encode = t :=
  lossyFrom_of_scan (scan_encode t)

/-- Every character read from a state on is a replacement, or is spelled by the bytes held
and those that follow. -/
theorem State.Sound.encode_infix {q : State} (hq : q.Sound) {bs : Bytes} {c : Char}
    (h : c ∈ lossyFrom q bs) :
    c = replacement ∨ String.utf8EncodeChar c <:+: q.held ++ bs := by
  induction q, bs using reading_induction with
  | nil q =>
      cases q with
      | start => exact absurd h List.not_mem_nil
      | inside held value next later => exact .inl (List.mem_singleton.mp h)
  | into q b bs q' hb ih =>
      rw [lossyFrom_cons_of_into bs hb] at h
      rw [← List.singleton_append, ← List.append_assoc, ← State.held_step hb]
      exact ih (hq.step hb) h
  | char q b bs d hb ih =>
      rw [lossyFrom_cons_of_char bs hb] at h
      rw [← List.singleton_append, ← List.append_assoc, ← (hq.spells hb).encodeChar_eq]
      rcases List.mem_cons.mp h with rfl | h
      · exact .inr (List.prefix_append _ bs).isInfix
      · exact (ih trivial h).imp_right fun hin => hin.trans (List.suffix_append _ bs).isInfix
  | refuse b bs hb ih =>
      rw [lossyFrom_start_of_refuse bs hb] at h
      rcases List.mem_cons.mp h with hc | h
      · exact .inl hc
      · exact (ih trivial h).imp_right fun hin => hin.trans (List.suffix_cons b bs).isInfix
  | afresh held value next later b bs hb ih =>
      rw [lossyFrom_inside_of_refuse bs hb] at h
      rcases List.mem_cons.mp h with hc | h
      · exact .inl hc
      · exact (ih trivial h).imp_right fun hin =>
          hin.trans (List.suffix_append held _).isInfix

/-- **Every character read from any bytes is a replacement, or the bytes spell it** in one
piece. -/
theorem encode_infix_of_mem_lossy {bs : Bytes} {c : Char} (h : c ∈ lossy bs) :
    c = replacement ∨ String.utf8EncodeChar c <:+: bs :=
  State.Sound.encode_infix (q := .start) trivial h

/-- A character of one byte is read only where that byte is. -/
theorem mem_of_mem_lossy {bs : Bytes} {b : UInt8} {c : Char}
    (hc : String.utf8EncodeChar c = [b]) (h : c ∈ lossy bs) : b ∈ bs := by
  rcases encode_infix_of_mem_lossy h with rfl | hin
  · have hlength : (String.utf8EncodeChar replacement).length = 3 := by decide
    rw [hc] at hlength
    cases hlength
  · rw [hc] at hin
    exact hin.subset List.mem_cons_self

end Offspring.Utf8
