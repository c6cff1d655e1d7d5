import Offspring.Proofs.Text.Utf8
/-!
# Bytes at the front of a text

A scan that is inside a character can always be finished: every span that is still open has
a byte in it (`State.Open`), so some bytes complete a character (`cut_of_scan`).  Hence a scan
meets an ill-formed byte exactly when no text begins with the bytes (`scan_illFormed_iff`), it
ends inside a character exactly when the bytes break one off (`scan_cut_iff`), and the text
that it gives is the longest whose bytes they begin with (`encode_prefix_iff`).
-/

namespace Offspring.Utf8

/-- Some text begins with these bytes. -/
def Begins (bs : Bytes) : Prop :=
  ∃ t : Text, bs <+: t.encode

/-- The bytes are those of a text and then some, but not all, of one more character. -/
def BreaksOff (bs : Bytes) : Prop :=
  ∃ (t : Text) (c : Char) (held missing : Bytes), held ≠ [] ∧ missing ≠ [] ∧
    String.utf8EncodeChar c = held ++ missing ∧ bs = t.encode ++ held

/-- Inside a character the machine holds something, and each span that is still open has its
first byte in it. -/
def State.Open : State → Prop
  | .start => True
  | .inside held _ next later => held ≠ [] ∧ ∀ s ∈ next :: later, s.holds s.lo = true

theorem tail_open : Span.tail.holds Span.tail.lo = true := by decide

theorem afterThree_open (a : UInt8) : (afterThree a).holds (afterThree a).lo = true := by
  unfold afterThree
  split
  · decide
  · split <;> decide

theorem afterFour_open (a : UInt8) : (afterFour a).holds (afterFour a).lo = true := by
  unfold afterFour
  split
  · decide
  · split <;> decide

/-- A first byte opens a character that can be finished. -/
theorem open_of_opens {a : UInt8} {q : State} (h : opens a = .into q) : q.Open := by
  rw [opens_eq] at h
  split at h
  · cases h
  split at h
  · cases h
  split at h
  · cases h
    simp [State.Open, tail_open]
  split at h
  · cases h
    simp [State.Open, tail_open, afterThree_open]
  split at h
  · cases h
    simp [State.Open, tail_open, afterFour_open]
  · cases h

/-- And so it stays with every byte inside it. -/
theorem State.Open.step {q q' : State} {b : UInt8} (hq : q.Open) (h : q.step b = .into q') :
    q'.Open := by
  cases q with
  | start => exact open_of_opens h
  | inside held value next later =>
      simp only [State.step] at h
      split at h
      · cases later with
        | nil => cases h
        | cons s later =>
            cases h
            refine ⟨by simp, fun s' hs' => hq.2 s' (List.mem_cons_of_mem next hs')⟩
      · cases h

/-- The first bytes of the open spans finish the character. -/
theorem Finishes.exists_spells {later : List Span} {held : Bytes} {value : Nat} {next : Span}
    (h : Finishes later held value next) (hopen : ∀ s ∈ next :: later, s.holds s.lo = true) :
    ∃ missing c, missing ≠ [] ∧ Spells (held ++ missing) c := by
  induction later generalizing held value next with
  | nil => exact ⟨[next.lo], _, by simp, h next.lo (hopen next List.mem_cons_self)⟩
  | cons s later ih =>
      have hnext := h next.lo (hopen next List.mem_cons_self)
      obtain ⟨missing, c, _, hspells⟩ :=
        ih hnext fun s' hs' => hopen s' (List.mem_cons_of_mem next hs')
      refine ⟨next.lo :: missing, c, by simp, ?_⟩
      rwa [List.append_assoc, List.singleton_append] at hspells

/-- **What a scan breaks off is a part of a character.** -/
theorem State.Sound.cut_of_scan {q : State} (hq : q.Sound) (hopen : q.Open) {bs held : Bytes}
    (h : (Utf8.scan q bs).2 = .cut held) :
    held ≠ [] ∧ ∃ missing c, missing ≠ [] ∧ String.utf8EncodeChar c = held ++ missing := by
  induction bs generalizing q with
  | nil =>
      cases q with
      | start => cases h
      | inside held' value next later =>
          cases h
          obtain ⟨missing, c, hne, hspells⟩ := Finishes.exists_spells hq hopen.2
          exact ⟨hopen.1, missing, c, hne, hspells.encodeChar_eq⟩
  | cons b bs ih =>
      cases hb : q.step b with
      | into q' =>
          rw [scan_cons_of_into bs hb] at h
          exact ih (hq.step hb) (hopen.step hb) h
      | char c =>
          rw [scan_cons_of_char bs hb] at h
          exact ih (q := .start) trivial trivial h
      | refuse => simp [Utf8.scan, hb] at h

theorem cut_of_scan {bs held : Bytes} (h : (scan .start bs).2 = .cut held) :
    held ≠ [] ∧ ∃ missing c, missing ≠ [] ∧ String.utf8EncodeChar c = held ++ missing :=
  State.Sound.cut_of_scan (q := .start) trivial trivial h

/-- A text whose bytes come first is read first. -/
theorem prefix_of_encode_append {t : Text} {bs : Bytes} (h : t.encode <+: bs) :
    t <+: (scan .start bs).1 := by
  obtain ⟨rest, rfl⟩ := h
  rw [scan_encode_append]
  exact List.prefix_append t _

/-- **The machine refuses at the first byte that rules every text out.** -/
theorem scan_illFormed_iff (bs : Bytes) : (scan .start bs).2 = .illFormed ↔ ¬ Begins bs := by
  constructor
  · rintro hill ⟨t, rest, ht⟩
    have hwhole := scan_append_of_illFormed hill rest
    rw [ht, scan_encode] at hwhole
    rw [← hwhole] at hill
    cases hill
  · intro hnone
    by_contra hgood
    apply hnone
    have hbytes := encode_of_scan hgood
    cases hend : (scan .start bs).2 with
    | whole =>
        refine ⟨(scan .start bs).1, ?_⟩
        rw [hend, Ending.held, List.append_nil] at hbytes
        exact ⟨[], (List.append_nil bs).trans hbytes.symm⟩
    | cut held =>
        obtain ⟨_, missing, c, _, hc⟩ := cut_of_scan hend
        refine ⟨(scan .start bs).1 ++ [c], missing, ?_⟩
        rw [hend, Ending.held] at hbytes
        rw [Text.encode_append, Text.encode_cons, Text.encode_nil, List.append_nil, hc,
          ← List.append_assoc, hbytes]
    | illFormed => exact absurd hend hgood

/-- **The text of a scan is the longest that the bytes begin with.** -/
theorem encode_prefix_iff {bs : Bytes} (h : Begins bs) (t : Text) :
    t.encode <+: bs ↔ t <+: (scan .start bs).1 := by
  refine ⟨prefix_of_encode_append, fun ht => ?_⟩
  have hgood : (scan .start bs).2 ≠ .illFormed := fun hill => (scan_illFormed_iff bs).mp hill h
  obtain ⟨more, hmore⟩ := ht
  have hbytes := encode_of_scan hgood
  rw [← hmore, Text.encode_append, List.append_assoc] at hbytes
  exact ⟨_, hbytes⟩

/-- A scan ends inside a character exactly when the bytes break one off. -/
theorem scan_cut_iff (bs : Bytes) : (∃ held, (scan .start bs).2 = .cut held) ↔ BreaksOff bs := by
  constructor
  · rintro ⟨held, hcut⟩
    obtain ⟨hheld, missing, c, hmissing, hc⟩ := cut_of_scan hcut
    have hgood : (scan .start bs).2 ≠ .illFormed := by simp [hcut]
    have hbytes := encode_of_scan hgood
    rw [hcut, Ending.held] at hbytes
    exact ⟨_, c, held, missing, hheld, hmissing, hc, hbytes.symm⟩
  · rintro ⟨t, c, held, missing, hheld, hmissing, hc, rfl⟩
    have hlonger : (t ++ [c]).encode = t.encode ++ held ++ missing := by
      rw [Text.encode_append, Text.encode_cons, Text.encode_nil, List.append_nil, hc,
        List.append_assoc]
    cases hend : (scan .start (t.encode ++ held)).2 with
    | cut held' => exact ⟨held', rfl⟩
    | illFormed =>
        have hbegins : Begins (t.encode ++ held) := ⟨t ++ [c], missing, hlonger.symm⟩
        exact absurd hbegins ((scan_illFormed_iff _).mp hend)
    | whole =>
        -- a text between the two would have a character of its own between them
        exfalso
        generalize hu : (scan .start (t.encode ++ held)).1 = u
        have hbytes : u.encode = t.encode ++ held := by
          have hgood : (scan .start (t.encode ++ held)).2 ≠ .illFormed := by simp [hend]
          have hscan := encode_of_scan hgood
          rwa [hend, hu, Ending.held, List.append_nil] at hscan
        have hfront : u <+: t ++ [c] :=
          prefix_of_encode_prefix (by rw [hbytes, hlonger]; exact List.prefix_append _ _)
        have hsize := congrArg List.length hbytes
        have hsize' := congrArg List.length hlonger
        have hpos := List.length_pos_iff.mpr hheld
        have hpos' := List.length_pos_iff.mpr hmissing
        rw [List.length_append] at hsize
        rw [List.length_append, List.length_append] at hsize'
        rcases List.prefix_concat_iff.mp hfront with rfl | hshort
        · omega
        · obtain ⟨more, rfl⟩ := hshort
          rw [Text.encode_append, List.length_append] at hsize
          omega

end Offspring.Utf8
