import Mathlib.Tactic.Common
import Offspring.Text.Utf8
/-!
# The machine reads exactly what encoding writes

`Spells` is the table of well-formed byte sequences, one constructor for each length,
and says which character each of them stands for.  It is held to the encoding on one
side and to the machine on the other:

* `spells_encodeChar`, `Spells.encodeChar_eq` — a sequence spells a character exactly
  when it is the encoding of that character;
* `Spells.scan` and `State.Sound` — the machine completes a character exactly at the
  end of a sequence that spells it.

From there the whole scan follows: `scan_encode_append` reads an encoded text off the
front of any bytes, `encode_of_scan` gives the bytes back, and `scan_append` says how
a scan goes on over further bytes: as if the bytes still held came right before them.
-/

namespace Offspring.Utf8

theorem Span.holds_iff (s : Span) (b : UInt8) :
    s.holds b = true ↔ s.lo.toNat ≤ b.toNat ∧ b.toNat ≤ s.hi.toNat := by
  simp [Span.holds, UInt8.le_iff_toNat_le]

theorem Span.tail_holds_iff (b : UInt8) :
    Span.tail.holds b = true ↔ 0x80 ≤ b.toNat ∧ b.toNat ≤ 0xBF :=
  Span.holds_iff .tail b

/-- The span after the first byte of a character of three bytes. -/
def afterThree (a : UInt8) : Span :=
  if a = 0xE0 then ⟨0xA0, 0xBF⟩ else if a = 0xED then ⟨0x80, 0x9F⟩ else .tail

/-- The span after the first byte of a character of four bytes. -/
def afterFour (a : UInt8) : Span :=
  if a = 0xF0 then ⟨0x90, 0xBF⟩ else if a = 0xF4 then ⟨0x80, 0x8F⟩ else .tail

/-- Three bytes write no overlong form and no surrogate. -/
theorem afterThree_holds_iff (a b : UInt8) :
    (afterThree a).holds b = true ↔ (0x80 ≤ b.toNat ∧ b.toNat ≤ 0xBF) ∧
      (a.toNat = 0xE0 → 0xA0 ≤ b.toNat) ∧ (a.toNat = 0xED → b.toNat ≤ 0x9F) := by
  simp only [Span.holds_iff, afterThree, ← UInt8.toNat_inj, UInt8.reduceToNat]
  split
  · simp only [UInt8.reduceToNat]; omega
  · split
    · simp only [UInt8.reduceToNat]; omega
    · simp only [Span.tail, UInt8.reduceToNat]; omega

/-- Four bytes write no overlong form and nothing above U+10FFFF. -/
theorem afterFour_holds_iff (a b : UInt8) :
    (afterFour a).holds b = true ↔ (0x80 ≤ b.toNat ∧ b.toNat ≤ 0xBF) ∧
      (a.toNat = 0xF0 → 0x90 ≤ b.toNat) ∧ (a.toNat = 0xF4 → b.toNat ≤ 0x8F) := by
  simp only [Span.holds_iff, afterFour, ← UInt8.toNat_inj, UInt8.reduceToNat]
  split
  · simp only [UInt8.reduceToNat]; omega
  · split
    · simp only [UInt8.reduceToNat]; omega
    · simp only [Span.tail, UInt8.reduceToNat]; omega

/-- What a first byte does, by its number and the length of what it opens. -/
theorem opens_eq (a : UInt8) :
    opens a =
      if a.toNat ≤ 0x7F then .char (Char.ofNat a.toNat)
      else if a.toNat ≤ 0xC1 then .refuse
      else if a.toNat ≤ 0xDF then .into (.inside [a] (a.toNat - 0xC0) .tail [])
      else if a.toNat ≤ 0xEF then
        .into (.inside [a] (a.toNat - 0xE0) (afterThree a) [.tail])
      else if a.toNat ≤ 0xF4 then
        .into (.inside [a] (a.toNat - 0xF0) (afterFour a) [.tail, .tail])
      else .refuse := by
  simp only [opens, afterThree, afterFour, UInt8.le_iff_toNat_le, UInt8.lt_iff_toNat_lt,
    ← UInt8.toNat_inj, UInt8.reduceToNat]
  grind

/-- The well-formed byte sequences of one character, and the character. -/
inductive Spells : Bytes → Char → Prop
  | one (a : UInt8) (ha : a.toNat ≤ 0x7F) : Spells [a] (Char.ofNat a.toNat)
  | two (a b : UInt8) (ha : 0xC2 ≤ a.toNat ∧ a.toNat ≤ 0xDF)
      (hb : Span.tail.holds b = true) :
      Spells [a, b] (Char.ofNat (widen (a.toNat - 0xC0) b))
  | three (a b c : UInt8) (ha : 0xE0 ≤ a.toNat ∧ a.toNat ≤ 0xEF)
      (hb : (afterThree a).holds b = true) (hc : Span.tail.holds c = true) :
      Spells [a, b, c] (Char.ofNat (widen (widen (a.toNat - 0xE0) b) c))
  | four (a b c d : UInt8) (ha : 0xF0 ≤ a.toNat ∧ a.toNat ≤ 0xF4)
      (hb : (afterFour a).holds b = true) (hc : Span.tail.holds c = true)
      (hd : Span.tail.holds d = true) :
      Spells [a, b, c, d] (Char.ofNat (widen (widen (widen (a.toNat - 0xF0) b) c) d))

/-- The number of the character of a number that is no surrogate and not too large. -/
theorem toNat_ofNat {n : Nat} (h : n < 0xD800 ∨ (0xDFFF < n ∧ n < 0x110000)) :
    (Char.ofNat n).val.toNat = n := by
  have hv : n.isValidChar := h
  rw [Char.ofNat, dif_pos hv]
  rfl

/-- A byte is known by its number. -/
theorem ofNat_eq_of_toNat {n : Nat} {a : UInt8} (h : a.toNat = n) : UInt8.ofNat n = a := by
  rw [← h, UInt8.ofNat_toNat]

theorem encodeChar_two {n : Nat} {a b : UInt8} (h : 0x80 ≤ n ∧ n ≤ 0x7FF)
    (ha : a.toNat = 0xC0 + n / 64) (hb : b.toNat = 0x80 + n % 64) :
    String.utf8EncodeChar (Char.ofNat n) = [a, b] := by
  have hv := toNat_ofNat (n := n) (by omega)
  simp only [String.utf8EncodeChar, hv]
  clear hv
  rw [if_neg (Nat.not_le.mpr h.1), if_pos h.2]
  rw [ofNat_eq_of_toNat (a := a) (by omega), ofNat_eq_of_toNat (a := b) (by omega)]

theorem encodeChar_three {n : Nat} {a b c : UInt8}
    (h : 0x800 ≤ n ∧ n ≤ 0xFFFF ∧ (n < 0xD800 ∨ 0xDFFF < n))
    (ha : a.toNat = 0xE0 + n / 4096) (hb : b.toNat = 0x80 + n / 64 % 64)
    (hc : c.toNat = 0x80 + n % 64) :
    String.utf8EncodeChar (Char.ofNat n) = [a, b, c] := by
  have hv := toNat_ofNat (n := n) (by omega)
  simp only [String.utf8EncodeChar, hv]
  clear hv
  rw [if_neg (by omega), if_neg (Nat.not_le.mpr h.1), if_pos h.2.1]
  rw [ofNat_eq_of_toNat (a := a) (by omega), ofNat_eq_of_toNat (a := b) (by omega),
    ofNat_eq_of_toNat (a := c) (by omega)]

theorem encodeChar_four {n : Nat} {a b c d : UInt8} (h : 0x10000 ≤ n ∧ n ≤ 0x10FFFF)
    (ha : a.toNat = 0xF0 + n / 262144) (hb : b.toNat = 0x80 + n / 4096 % 64)
    (hc : c.toNat = 0x80 + n / 64 % 64) (hd : d.toNat = 0x80 + n % 64) :
    String.utf8EncodeChar (Char.ofNat n) = [a, b, c, d] := by
  have hv := toNat_ofNat (n := n) (by omega)
  simp only [String.utf8EncodeChar, hv]
  clear hv
  rw [if_neg (by omega), if_neg (by omega), if_neg (Nat.not_le.mpr h.1)]
  rw [ofNat_eq_of_toNat (a := a) (by omega), ofNat_eq_of_toNat (a := b) (by omega),
    ofNat_eq_of_toNat (a := c) (by omega), ofNat_eq_of_toNat (a := d) (by omega)]

/-- A sequence that spells a character is its encoding. -/
theorem Spells.encodeChar_eq {bs : Bytes} {c : Char} (h : Spells bs c) :
    String.utf8EncodeChar c = bs := by
  cases h with
  | one a ha =>
      have hv := toNat_ofNat (n := a.toNat) (by omega)
      simp only [String.utf8EncodeChar, hv, if_pos ha, UInt8.ofNat_toNat]
  | two a b ha hb =>
      rw [Span.tail_holds_iff] at hb
      refine encodeChar_two (n := widen (a.toNat - 0xC0) b) ?_ ?_ ?_ <;>
        unfold widen <;> omega
  | three a b c ha hb hc =>
      rw [afterThree_holds_iff] at hb
      rw [Span.tail_holds_iff] at hc
      refine encodeChar_three (n := widen (widen (a.toNat - 0xE0) b) c) ?_ ?_ ?_ ?_ <;>
        unfold widen <;> omega
  | four a b c d ha hb hc hd =>
      rw [afterFour_holds_iff] at hb
      rw [Span.tail_holds_iff] at hc hd
      refine encodeChar_four (n := widen (widen (widen (a.toNat - 0xF0) b) c) d)
        ?_ ?_ ?_ ?_ ?_ <;> unfold widen <;> omega

theorem exists_byte {n : Nat} (h : n ≤ 0xFF) : ∃ a : UInt8, a.toNat = n :=
  ⟨UInt8.ofNat n, UInt8.toNat_ofNat_of_lt' (by simp only [UInt8.size]; omega)⟩

/-- Every character is spelled by some sequence. -/
theorem exists_spells (c : Char) : ∃ bs, Spells bs c := by
  have hc : c.val.toNat < 0xD800 ∨ 0xDFFF < c.val.toNat ∧ c.val.toNat < 0x110000 := c.valid
  have hof : Char.ofNat c.val.toNat = c := Char.ofNat_toNat c
  generalize c.val.toNat = n at hc hof
  subst hof
  by_cases h1 : n ≤ 0x7F
  · obtain ⟨a, rfl⟩ := exists_byte (n := n) (by omega)
    exact ⟨_, .one a h1⟩
  by_cases h2 : n ≤ 0x7FF
  · obtain ⟨a, ha⟩ := exists_byte (n := 0xC0 + n / 64) (by omega)
    obtain ⟨b, hb⟩ := exists_byte (n := 0x80 + n % 64) (by omega)
    have hn : n = widen (a.toNat - 0xC0) b := by unfold widen; omega
    rw [hn]
    exact ⟨_, .two a b (by omega) ((Span.tail_holds_iff b).mpr (by omega))⟩
  by_cases h3 : n ≤ 0xFFFF
  · obtain ⟨a, ha⟩ := exists_byte (n := 0xE0 + n / 4096) (by omega)
    obtain ⟨b, hb⟩ := exists_byte (n := 0x80 + n / 64 % 64) (by omega)
    obtain ⟨d, hd⟩ := exists_byte (n := 0x80 + n % 64) (by omega)
    have hn : n = widen (widen (a.toNat - 0xE0) b) d := by unfold widen; omega
    rw [hn]
    exact ⟨_, .three a b d (by omega) ((afterThree_holds_iff a b).mpr (by omega))
      ((Span.tail_holds_iff d).mpr (by omega))⟩
  · obtain ⟨a, ha⟩ := exists_byte (n := 0xF0 + n / 262144) (by omega)
    obtain ⟨b, hb⟩ := exists_byte (n := 0x80 + n / 4096 % 64) (by omega)
    obtain ⟨d, hd⟩ := exists_byte (n := 0x80 + n / 64 % 64) (by omega)
    obtain ⟨e, he⟩ := exists_byte (n := 0x80 + n % 64) (by omega)
    have hn : n = widen (widen (widen (a.toNat - 0xF0) b) d) e := by unfold widen; omega
    rw [hn]
    exact ⟨_, .four a b d e (by omega) ((afterFour_holds_iff a b).mpr (by omega))
      ((Span.tail_holds_iff d).mpr (by omega)) ((Span.tail_holds_iff e).mpr (by omega))⟩

/-- Every character is spelled by its encoding. -/
theorem spells_encodeChar (c : Char) : Spells (String.utf8EncodeChar c) c := by
  obtain ⟨bs, h⟩ := exists_spells c
  rwa [h.encodeChar_eq]

/-- A scan of a sequence that spells a character completes it at the end. -/
theorem Spells.scan {bs : Bytes} {c : Char} (h : Spells bs c) (rest : Bytes) :
    scan .start (bs ++ rest) = (c :: (scan .start rest).1, (scan .start rest).2) := by
  cases h with
  | one a ha =>
      simp [Utf8.scan, State.step, opens_eq, ha]
  | two a b ha hb =>
      have h1 : opens a = .into (.inside [a] (a.toNat - 0xC0) .tail []) := by
        rw [opens_eq, if_neg (by omega), if_neg (by omega), if_pos ha.2]
      simp [Utf8.scan, State.step, h1, hb]
  | three a b d ha hb hd =>
      have h1 : opens a = .into (.inside [a] (a.toNat - 0xE0) (afterThree a) [.tail]) := by
        rw [opens_eq, if_neg (by omega), if_neg (by omega), if_neg (by omega), if_pos ha.2]
      simp [Utf8.scan, State.step, h1, hb, hd]
  | four a b d e ha hb hd he =>
      have h1 : opens a =
          .into (.inside [a] (a.toNat - 0xF0) (afterFour a) [.tail, .tail]) := by
        rw [opens_eq, if_neg (by omega), if_neg (by omega), if_neg (by omega),
          if_neg (by omega), if_pos ha.2]
      simp [Utf8.scan, State.step, h1, hb, hd, he]

/-- What the open spans of a character lead to: whatever bytes they admit spell the
character that the machine will complete. -/
def Finishes : List Span → Bytes → Nat → Span → Prop
  | [], held, value, next =>
      ∀ b, next.holds b = true → Spells (held ++ [b]) (Char.ofNat (widen value b))
  | s :: later, held, value, next =>
      ∀ b, next.holds b = true → Finishes later (held ++ [b]) (widen value b) s

/-- A state in which the machine knows what it is doing: the bytes held open a
character, and the spans still open finish it. -/
def State.Sound : State → Prop
  | .start => True
  | .inside held value next later => Finishes later held value next

/-- A first byte leads to a sound state. -/
theorem sound_of_opens {a : UInt8} {q : State} (h : opens a = .into q) : q.Sound := by
  rw [opens_eq] at h
  split at h
  · cases h
  split at h
  · cases h
  split at h
  · cases h
    intro b hb
    exact .two a b (by omega) hb
  split at h
  · cases h
    intro b hb d hd
    exact .three a b d (by omega) hb hd
  split at h
  · cases h
    intro b hb d hd e he
    exact .four a b d e (by omega) hb hd he
  · cases h

/-- A byte leads from a sound state to a sound state. -/
theorem State.Sound.step {q q' : State} {b : UInt8} (hq : q.Sound)
    (h : q.step b = .into q') : q'.Sound := by
  cases q with
  | start => exact sound_of_opens h
  | inside held value next later =>
      simp only [State.step] at h
      split at h
      · next hb =>
        cases later with
        | nil => cases h
        | cons s later =>
            cases h
            exact hq b hb
      · cases h

/-- The character completed from a sound state is the one that its bytes spell. -/
theorem State.Sound.spells {q : State} {b : UInt8} {c : Char} (hq : q.Sound)
    (h : q.step b = .char c) : Spells (q.held ++ [b]) c := by
  cases q with
  | start =>
      simp only [State.step, opens_eq] at h
      split at h
      · next ha =>
        cases h
        exact .one b ha
      · repeat' split at h
        all_goals cases h
  | inside held value next later =>
      simp only [State.step] at h
      split at h
      · next hb =>
        cases later with
        | nil =>
            rw [← Move.char.inj h]
            exact hq b hb
        | cons s later => cases h
      · cases h

/-- A byte inside a character joins the bytes held. -/
theorem State.held_step {q q' : State} {b : UInt8} (h : q.step b = .into q') :
    q'.held = q.held ++ [b] := by
  cases q with
  | start =>
      simp only [State.step, opens_eq] at h
      repeat' split at h
      all_goals cases h <;> rfl
  | inside held value next later =>
      simp only [State.step] at h
      split at h
      · cases later with
        | nil => cases h
        | cons s later =>
            cases h
            rfl
      · cases h

/-- An encoded text is read off the front of any bytes. -/
theorem scan_encode_append (t : Text) (bs : Bytes) :
    scan .start (t.encode ++ bs) = (t ++ (scan .start bs).1, (scan .start bs).2) := by
  induction t with
  | nil => simp
  | cons c t ih =>
      rw [Text.encode_cons, List.append_assoc, (spells_encodeChar c).scan, ih]
      rfl

theorem scan_encode (t : Text) : scan .start t.encode = (t, .whole) := by
  simpa [scan, State.ending] using scan_encode_append t []

/-- The bytes of the character that an ending leaves open. -/
def Ending.held : Ending → Bytes
  | .whole => []
  | .cut held => held
  | .illFormed => []

theorem State.held_ending (q : State) : q.ending.held = q.held := by
  cases q <;> rfl

/-- A scan that meets no ill-formed byte gives back the bytes: its text encoded, and
the bytes it still holds. -/
theorem State.Sound.encode_of_scan {q : State} (hq : q.Sound) {bs : Bytes}
    (h : (Utf8.scan q bs).2 ≠ .illFormed) :
    q.held ++ bs = (Utf8.scan q bs).1.encode ++ (Utf8.scan q bs).2.held := by
  induction bs generalizing q with
  | nil => simp [Utf8.scan, State.held_ending]
  | cons b bs ih =>
      cases hb : q.step b with
      | into q' =>
          rw [scan_cons_of_into bs hb] at h ⊢
          rw [← ih (hq.step hb) h, State.held_step hb, List.append_assoc]
          rfl
      | char c =>
          rw [scan_cons_of_char bs hb] at h ⊢
          have hc := (hq.spells hb).encodeChar_eq
          have hrest := ih (q := .start) trivial h
          rw [Text.encode_cons, hc, List.append_assoc, List.append_assoc, ← hrest]
          rfl
      | refuse => simp [Utf8.scan, hb] at h

/-- From the first byte on, a scan gives back the bytes. -/
theorem encode_of_scan {bs : Bytes} (h : (scan .start bs).2 ≠ .illFormed) :
    (scan .start bs).1.encode ++ (scan .start bs).2.held = bs :=
  (State.Sound.encode_of_scan (q := .start) trivial h).symm

/-- **Decoding is the inverse of encoding.**  The bytes that decode to a text are those
that encode it. -/
theorem decode?_eq_some_iff {bs : Bytes} {t : Text} :
    decode? bs = some t ↔ t.encode = bs := by
  constructor
  · intro h
    unfold decode? at h
    split at h
    · next u hu =>
      cases h
      have hwhole : (scan .start bs).2 ≠ .illFormed := by simp [hu]
      have hs := encode_of_scan hwhole
      simpa [hu, Ending.held] using hs
    · cases h
  · rintro rfl
    simp [decode?, scan_encode]

/-- Different texts have different encodings. -/
theorem encode_injective {s t : Text} (h : s.encode = t.encode) : s = t := by
  have hs := scan_encode s
  rw [h, scan_encode t] at hs
  exact (Prod.mk.inj hs).1.symm

/-- A text whose encoding starts another encoding starts the other text. -/
theorem prefix_of_encode_prefix {s t : Text} (h : s.encode <+: t.encode) : s <+: t := by
  obtain ⟨bs, hbs⟩ := h
  have ht := scan_encode t
  rw [← hbs, scan_encode_append] at ht
  exact ⟨_, (Prod.mk.inj ht).1⟩

/-- A state that is where its bytes lead from the start. -/
def State.Resumes (q : State) : Prop :=
  ∀ bs, Utf8.scan .start (q.held ++ bs) = Utf8.scan q bs

theorem resumes_start : State.start.Resumes := fun _ => rfl

theorem State.Resumes.step {q q' : State} {b : UInt8} (hq : q.Resumes)
    (h : q.step b = .into q') : q'.Resumes := by
  intro bs
  rw [State.held_step h, List.append_assoc, List.singleton_append, hq,
    scan_cons_of_into bs h]

/-- A scan over two parts is a scan of the first, and then of what that still holds
together with the second. -/
theorem State.Resumes.scan_append {q : State} (hq : q.Resumes) {bs : Bytes}
    (h : (Utf8.scan q bs).2 ≠ .illFormed) (cs : Bytes) :
    Utf8.scan q (bs ++ cs) =
      ((Utf8.scan q bs).1 ++ (Utf8.scan .start ((Utf8.scan q bs).2.held ++ cs)).1,
        (Utf8.scan .start ((Utf8.scan q bs).2.held ++ cs)).2) := by
  induction bs generalizing q with
  | nil => simp [Utf8.scan, State.held_ending, hq cs]
  | cons b bs ih =>
      cases hb : q.step b with
      | into q' =>
          rw [scan_cons_of_into bs hb] at h
          rw [List.cons_append, scan_cons_of_into _ hb, scan_cons_of_into _ hb,
            ih (hq.step hb) h]
      | char c =>
          rw [scan_cons_of_char bs hb] at h
          rw [List.cons_append, scan_cons_of_char _ hb, scan_cons_of_char _ hb,
            ih resumes_start h]
          rfl
      | refuse => simp [Utf8.scan, hb] at h

/-- No bytes after an ill-formed one make a difference. -/
theorem scan_append_of_illFormed {q : State} {bs : Bytes}
    (h : (scan q bs).2 = .illFormed) (cs : Bytes) : scan q (bs ++ cs) = scan q bs := by
  induction bs generalizing q with
  | nil => cases q <;> simp [scan, State.ending] at h
  | cons b bs ih =>
      cases hb : q.step b with
      | into q' =>
          rw [scan_cons_of_into bs hb] at h
          rw [List.cons_append, scan_cons_of_into _ hb, scan_cons_of_into _ hb, ih h]
      | char c =>
          rw [scan_cons_of_char bs hb] at h
          rw [List.cons_append, scan_cons_of_char _ hb, scan_cons_of_char _ hb, ih h]
      | refuse => simp [scan, hb]

/-- **Scanning in two parts.**  What the first part holds comes right before the second. -/
theorem scan_append {bs : Bytes} (h : (scan .start bs).2 ≠ .illFormed) (cs : Bytes) :
    scan .start (bs ++ cs) =
      ((scan .start bs).1 ++ (scan .start ((scan .start bs).2.held ++ cs)).1,
        (scan .start ((scan .start bs).2.held ++ cs)).2) :=
  resumes_start.scan_append h cs

end Offspring.Utf8
