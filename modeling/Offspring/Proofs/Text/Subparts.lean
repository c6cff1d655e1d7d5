import Offspring.Proofs.Text.Lossy
import Offspring.Proofs.Text.Utf8Front
/-!
# What a replacement character stands for

Bytes that begin with no character have a maximal subpart at their front: the longest part with
which the bytes of some character begin, or one byte if there is no such part
(`MaximalSubpart`).  `Replaced` reads bytes as the Unicode standard recommends: characters as
they are, and one replacement character for each maximal subpart.  There is one way to read
bytes so (`Replaced.unique`), and the machine reads them in that way (`replaced_iff`): a state
inside a character holds the longest part that any character begins with
(`State.Reached.maximalSubpart`).
-/

namespace Offspring.Utf8

/-- The maximal subpart at the front of bytes that begin with no character. -/
structure MaximalSubpart (part bs : Bytes) : Prop where
  front : part <+: bs
  nonempty : part ≠ []
  /-- No character can be read at the front. -/
  unfinished : ∀ c : Char, ¬ String.utf8EncodeChar c <+: bs
  /-- Some character begins like this, or else it is one byte. -/
  begins : part.length = 1 ∨ ∃ c : Char, part <+: String.utf8EncodeChar c
  /-- No character begins with more of the bytes. -/
  longest : ∀ (longer : Bytes) (c : Char), longer <+: bs → longer <+: String.utf8EncodeChar c →
    longer.length ≤ part.length

/-- A text that gives the characters of some bytes, and a replacement character for each maximal
subpart between them. -/
inductive Replaced : Bytes → Text → Prop
  | nil : Replaced [] []
  | char (c : Char) {bs : Bytes} {t : Text} (h : Replaced bs t) :
      Replaced (String.utf8EncodeChar c ++ bs) (c :: t)
  | subpart {part rest : Bytes} {t : Text} (hpart : MaximalSubpart part (part ++ rest))
      (h : Replaced rest t) : Replaced (part ++ rest) (replacement :: t)

theorem encodeChar_ne_nil (c : Char) : String.utf8EncodeChar c ≠ [] := by
  rw [← List.length_pos_iff, String.length_utf8EncodeChar]
  exact c.utf8Size_pos

/-- No character is the beginning of another one. -/
theorem encodeChar_prefix_free {c d : Char}
    (h : String.utf8EncodeChar c <+: String.utf8EncodeChar d) : c = d := by
  have htexts : Text.encode [c] <+: Text.encode [d] := by
    rwa [Text.encode_cons, Text.encode_cons, Text.encode_nil, List.append_nil, List.append_nil]
  have hfront := prefix_of_encode_prefix htexts
  exact (List.cons.inj (hfront.eq_of_length rfl)).1

/-- Bytes that begin the encoding of a character begin a text. -/
theorem begins_of_prefix_encodeChar {bs : Bytes} {c : Char}
    (h : bs <+: String.utf8EncodeChar c) : Begins bs :=
  ⟨[c], by rwa [Text.encode_cons, Text.encode_nil, List.append_nil]⟩

/-- Only one character can be read at the front of bytes. -/
theorem eq_of_encodeChar_append {c d : Char} {bs cs : Bytes}
    (h : String.utf8EncodeChar c ++ bs = String.utf8EncodeChar d ++ cs) : c = d ∧ bs = cs := by
  have hone : c = d := by
    rcases List.prefix_or_prefix_of_prefix (List.prefix_append (String.utf8EncodeChar c) bs)
      (h ▸ List.prefix_append (String.utf8EncodeChar d) cs) with hcd | hdc
    · exact encodeChar_prefix_free hcd
    · exact (encodeChar_prefix_free hdc).symm
  subst hone
  exact ⟨rfl, List.append_cancel_left h⟩

namespace MaximalSubpart

variable {part other bs : Bytes}

/-- What some character begins with is no longer than a maximal subpart, and neither is one
byte. -/
theorem length_le (h : MaximalSubpart part bs) (h' : MaximalSubpart other bs) :
    other.length ≤ part.length := by
  rcases h'.begins with hone | ⟨c, hc⟩
  · rw [hone]
    exact List.length_pos_iff.mpr h.nonempty
  · exact h.longest other c h'.front hc

theorem unique (h : MaximalSubpart part bs) (h' : MaximalSubpart other bs) : part = other :=
  (List.prefix_of_prefix_length_le h.front h'.front (h'.length_le h)).eq_of_length
    (Nat.le_antisymm (h'.length_le h) (h.length_le h'))

end MaximalSubpart

/-- **There is one way to replace.** -/
theorem Replaced.unique {bs : Bytes} {t u : Text} (h : Replaced bs t) (h' : Replaced bs u) :
    t = u := by
  induction h generalizing u with
  | nil =>
      generalize hbs : ([] : Bytes) = bs at h'
      cases h' with
      | nil => rfl
      | char c _ => exact absurd (List.append_eq_nil_iff.mp hbs.symm).1 (encodeChar_ne_nil c)
      | subpart hpart _ => exact absurd (List.append_eq_nil_iff.mp hbs.symm).1 hpart.nonempty
  | @char c bs t _ ih =>
      generalize hbs : String.utf8EncodeChar c ++ bs = all at h'
      cases h' with
      | nil => exact absurd (List.append_eq_nil_iff.mp hbs).1 (encodeChar_ne_nil c)
      | char d h' =>
          obtain ⟨rfl, rfl⟩ := eq_of_encodeChar_append hbs
          rw [ih h']
      | subpart hpart _ => exact absurd (hbs ▸ List.prefix_append _ bs) (hpart.unfinished c)
  | @subpart part rest t hpart _ ih =>
      generalize hbs : part ++ rest = all at h'
      cases h' with
      | nil => exact absurd (List.append_eq_nil_iff.mp hbs).1 hpart.nonempty
      | char d _ => exact absurd (hbs ▸ List.prefix_append _ _) (hpart.unfinished d)
      | subpart hpart' h' =>
          obtain rfl := hpart.unique (hbs ▸ hpart')
          rw [ih (List.append_cancel_left hbs ▸ h')]

/-- Nothing is replaced in the text of bytes that it does not write itself. -/
theorem Replaced.eq_encode {bs : Bytes} {t : Text} (h : Replaced bs t) (hnone : replacement ∉ t) :
    bs = t.encode := by
  induction h with
  | nil => rfl
  | char c _ ih => rw [Text.encode_cons, ih (List.not_mem_of_not_mem_cons hnone)]
  | subpart _ _ _ => exact absurd List.mem_cons_self hnone

/-- A state that the bytes it holds lead to from the start, and from which a character can be
finished. -/
structure State.Reached (q : State) : Prop where
  sound : q.Sound
  canFinish : q.Open
  resumes : q.Resumes

theorem reached_start : State.start.Reached := ⟨trivial, trivial, resumes_start⟩

theorem State.Reached.step {q q' : State} {b : UInt8} (hq : q.Reached) (h : q.step b = .into q') :
    q'.Reached :=
  ⟨hq.sound.step h, hq.canFinish.step h, hq.resumes.step h⟩

/-- A byte that the machine refuses begins no character, or goes on with none of those that the
bytes held begin. -/
theorem State.Reached.not_begins {q : State} {b : UInt8} (hq : q.Reached)
    (h : q.step b = .refuse) : ¬ Begins (q.held ++ [b]) := by
  rw [← scan_illFormed_iff, hq.resumes]
  simp only [Utf8.scan, h]

/-- What is held is part of a character, but not all of it. -/
theorem State.Reached.held_inside {held : Bytes} {value : Nat} {next : Span} {later : List Span}
    (hq : (State.inside held value next later).Reached) :
    held ≠ [] ∧ ∃ missing c, missing ≠ [] ∧ String.utf8EncodeChar c = held ++ missing := by
  have hcut : (Utf8.scan (.inside held value next later) []).2 = .cut held := rfl
  exact hq.sound.cut_of_scan hq.canFinish hcut

/-- **A character that is broken off is a maximal subpart**, whatever breaks it off. -/
theorem State.Reached.maximalSubpart {held : Bytes} {value : Nat} {next : Span}
    {later : List Span} (hq : (State.inside held value next later).Reached) {rest : Bytes}
    (hrest : ∀ b ∈ rest.head?, (State.inside held value next later).step b = .refuse) :
    MaximalSubpart held (held ++ rest) := by
  obtain ⟨hheld, missing, c, hmissing, hc⟩ := hq.held_inside
  have hlongest : ∀ (longer : Bytes) (d : Char), longer <+: held ++ rest →
      longer <+: String.utf8EncodeChar d → longer.length ≤ held.length := by
    intro longer d hfront hd
    by_contra hmore
    cases rest with
    | nil =>
        rw [List.append_nil] at hfront
        exact hmore hfront.length_le
    | cons b rest =>
        have hnext : held ++ [b] <+: held ++ b :: rest := ⟨rest, by simp⟩
        have hone : held ++ [b] <+: longer := by
          refine List.prefix_of_prefix_length_le hnext hfront ?_
          rw [List.length_append, List.length_singleton]
          omega
        exact hq.not_begins (hrest b rfl) (begins_of_prefix_encodeChar (hone.trans hd))
  refine ⟨List.prefix_append held rest, hheld, fun d hd => ?_, .inr ⟨c, ?_⟩, hlongest⟩
  · have hshort := hlongest _ d hd List.prefix_rfl
    have hpart := List.prefix_of_prefix_length_le hd (List.prefix_append held rest) hshort
    have hsame : d = c :=
      encodeChar_prefix_free (hpart.trans (hc ▸ List.prefix_append held missing))
    rw [hsame, hc, List.length_append] at hshort
    have hsome := List.length_pos_iff.mpr hmissing
    omega
  · rw [hc]
    exact List.prefix_append held missing

/-- A byte that begins no character is a maximal subpart by itself. -/
theorem maximalSubpart_of_refuse {b : UInt8} (h : opens b = .refuse) (bs : Bytes) :
    MaximalSubpart [b] (b :: bs) := by
  have hnone : ∀ c : Char, ¬ [b] <+: String.utf8EncodeChar c := fun c hc =>
    reached_start.not_begins (b := b) h (begins_of_prefix_encodeChar hc)
  have hshort : ∀ (longer : Bytes) (c : Char), longer <+: b :: bs →
      longer <+: String.utf8EncodeChar c → longer = [] := by
    intro longer c hfront hc
    by_contra hsome
    have hone : [b] <+: longer :=
      List.prefix_of_prefix_length_le ⟨bs, rfl⟩ hfront (List.length_pos_iff.mpr hsome)
    exact hnone c (hone.trans hc)
  refine ⟨⟨bs, rfl⟩, List.cons_ne_nil b [], fun c hc => ?_, .inl rfl, fun longer c hfront hc => ?_⟩
  · exact encodeChar_ne_nil c (hshort _ c hc List.prefix_rfl)
  · rw [hshort longer c hfront hc]
    exact Nat.zero_le _

/-- What is read from a state on replaces the maximal subparts of the bytes held and those that
follow. -/
theorem replaced_lossyFrom (q : State) (bs : Bytes) (hq : q.Reached) :
    Replaced (q.held ++ bs) (lossyFrom q bs) := by
  induction q, bs using reading_induction with
  | nil q =>
      cases q with
      | start => exact .nil
      | inside held value next later => exact .subpart (hq.maximalSubpart nofun) .nil
  | into q b bs q' hb ih =>
      rw [lossyFrom_cons_of_into bs hb, ← List.singleton_append, ← List.append_assoc,
        ← State.held_step hb]
      exact ih (hq.step hb)
  | char q b bs c hb ih =>
      rw [lossyFrom_cons_of_char bs hb, ← List.singleton_append, ← List.append_assoc,
        ← (hq.sound.spells hb).encodeChar_eq]
      exact .char c (ih reached_start)
  | refuse b bs hb ih =>
      rw [lossyFrom_start_of_refuse bs hb]
      change Replaced ([b] ++ bs) (replacement :: lossyFrom .start bs)
      exact .subpart (maximalSubpart_of_refuse hb bs) (ih reached_start)
  | afresh held value next later b bs hb ih =>
      rw [lossyFrom_inside_of_refuse bs hb]
      refine .subpart (hq.maximalSubpart fun a ha => ?_) (ih reached_start)
      cases ha
      exact hb

/-- **Bytes are read with one replacement character for each maximal subpart**, and in no other
way. -/
theorem replaced_iff {bs : Bytes} {t : Text} : Replaced bs t ↔ lossy bs = t := by
  have hread : Replaced bs (lossy bs) := replaced_lossyFrom .start bs reached_start
  exact ⟨hread.unique, fun h => h ▸ hread⟩

/-- A text at the front of any bytes is read first, and the rest as if it stood alone. -/
theorem lossy_encode_append (t : Text) (bs : Bytes) : lossy (t.encode ++ bs) = t ++ lossy bs := by
  rw [← replaced_iff]
  induction t with
  | nil => exact replaced_iff.mpr rfl
  | cons c t ih =>
      rw [Text.encode_cons, List.append_assoc]
      exact .char c ih

/-- Bytes that are read as a text without replacements are the bytes of that text. -/
theorem lossy_eq_iff {bs : Bytes} {t : Text} (hnone : replacement ∉ t) :
    lossy bs = t ↔ bs = t.encode :=
  ⟨fun h => (replaced_iff.mpr h).eq_encode hnone, fun h => h ▸ lossy_encode t⟩

/-- A text is read back just from bytes that are its own. -/
theorem encode_lossy_iff (bs : Bytes) : (lossy bs).encode = bs ↔ ∃ t : Text, t.encode = bs :=
  ⟨fun h => ⟨lossy bs, h⟩, fun ⟨t, ht⟩ => by rw [← ht, lossy_encode]⟩

/-- Two cut characters, a byte that begins none, and a character that is no cut one's end. -/
example : lossy [0xE2, 0x82, 0x41, 0xF0, 0x9F, 0x92, 0xFF, 0xC3, 0xA9] =
    [replacement, 'A', replacement, replacement, 'é'] := by decide

end Offspring.Utf8
