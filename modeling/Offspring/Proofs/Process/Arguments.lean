import Offspring.Process.Arguments
import Offspring.Proofs.Capture.Reader
import Offspring.Proofs.Text.Subparts
/-!
# Going through the arguments

Arguments are taken one at a time (`Arguments.Yields`).  What was taken and what is left make up
the vector without its first entry (`Arguments.yields_iff`), so at every point their number is
known exactly.  Each of them is read with one replacement character for each maximal subpart
(`Utf8.replaced_iff`), where a reader of a channel with the same bytes would fail: it finishes
just with a text that was read without a replacement of its own (`Reader.ended_iff_lossy`).
-/

namespace Offspring

namespace Arguments

/-- Going on from some arguments gives these items and leaves those arguments. -/
inductive Yields : Arguments → List Text → Arguments → Prop
  | none (a : Arguments) : Yields a [] a
  | next {a b c : Arguments} {t : Text} {items : List Text} (h : a.next? = some (t, b))
      (hrest : Yields b items c) : Yields a (t :: items) c

/-- **What was taken and what is left are all there was**, in order. -/
theorem yields_iff {a b : Arguments} {items : List Text} :
    a.Yields items b ↔ ∃ taken, a.left = taken ++ b.left ∧ items = taken.map Utf8.lossy := by
  constructor
  · intro h
    induction h with
    | none a => exact ⟨[], rfl, rfl⟩
    | @next a b c t items h _ ih =>
        obtain ⟨taken, hleft, rfl⟩ := ih
        obtain ⟨left⟩ := a
        cases left with
        | nil => cases h
        | cons bs left =>
            cases h
            exact ⟨bs :: taken, congrArg (bs :: ·) hleft, rfl⟩
  · rintro ⟨taken, hleft, rfl⟩
    induction taken generalizing a with
    | nil =>
        obtain ⟨left⟩ := a
        obtain rfl : left = b.left := hleft
        exact .none b
    | cons bs taken ih =>
        obtain ⟨left⟩ := a
        obtain rfl : left = bs :: (taken ++ b.left) := hleft
        exact .next rfl (ih (a := ⟨taken ++ b.left⟩) rfl)

/-- The stages are the points that taking the arguments comes through. -/
theorem stages_append (taken rest : List Bytes) :
    (⟨taken ++ rest⟩ : Arguments).stages[taken.length]? = some ⟨rest⟩ := by
  unfold stages
  induction taken with
  | nil => cases rest <;> rfl
  | cons bs taken ih => exact ih

theorem next?_eq_none_iff {a : Arguments} : a.next? = none ↔ a.left = [] := by
  obtain ⟨left⟩ := a
  cases left <;> simp [next?]

end Arguments

/-- **The strict and the lossy reading agree.**  A reader finishes with a text just when lossy
reading gives that text and its bytes are those that were read. -/
theorem Reader.ended_iff_lossy {reads : List Bytes} (hne : ∀ read ∈ reads, read ≠ []) (t : Text) :
    ((start.feedAll (reads ++ [[]])).fate? = some .ended ∧
        (start.feedAll (reads ++ [[]])).content = t) ↔
      Utf8.lossy reads.flatten = t ∧ t.encode = reads.flatten := by
  rcases feedAll_channel hne with ⟨u, hu, hfate, hcontent, _, _⟩ | ⟨hno, hfate⟩
  · rw [← hu, Utf8.lossy_encode, hcontent]
    constructor
    · rintro ⟨_, rfl⟩
      exact ⟨rfl, rfl⟩
    · rintro ⟨rfl, _⟩
      exact ⟨hfate, rfl⟩
  · constructor
    · rintro ⟨hended, _⟩
      rw [hfate] at hended
      cases hended
    · rintro ⟨_, ht⟩
      exact absurd ht (hno t)

open Utf8

/-- **What a program gets of its arguments.**  At every point of going through them, the items
taken and those to come, after which there are none, are the entries of the vector after the
first in order, each read by itself; and the number of those to come is known, before the first
item and after each.  Bytes are read as the one text that gives their characters and a
replacement character for each maximal subpart: a text is read as it is, also at the front of
other bytes, which are then read as if they stood alone, and what is read is made of the same
bytes just when they are a text.  A reader of the same bytes, however they come, finishes with
a text just when this is what lossy reading gives and its bytes are those that came. -/
theorem Arguments.decoding_law :
    (∀ (argv : List Bytes) (items : List Text) (a : Arguments), (ofVector argv).Yields items a →
      ∃ later last, a.Yields later last ∧ last.next? = none ∧
        items ++ later = argv.tail.map lossy ∧ (ofVector argv).toList = items ++ later ∧
        a.length = later.length ∧ a.bounds = (later.length, later.length) ∧
        (ofVector argv).stages[items.length]? = some a) ∧
    ∀ bs : Bytes,
      (∀ t, Replaced bs t ↔ lossy bs = t) ∧
      (∀ t : Text, t.encode = bs → lossy bs = t) ∧
      (∀ t : Text, lossy (t.encode ++ bs) = t ++ lossy bs) ∧
      ((lossy bs).encode = bs ↔ ∃ t : Text, t.encode = bs) ∧
      ∀ reads : List Bytes, (∀ read ∈ reads, read ≠ []) → reads.flatten = bs → ∀ t : Text,
        let r := Reader.start.feedAll (reads ++ [[]])
        r.fate? = some .ended ∧ r.content = t ↔ lossy bs = t ∧ t.encode = bs := by
  refine ⟨fun argv items a h => ?_, fun bs => ⟨fun t => replaced_iff, ?_, ?_, encode_lossy_iff bs,
    ?_⟩⟩
  · obtain ⟨taken, hleft, rfl⟩ := yields_iff.mp h
    replace hleft : argv.tail = taken ++ a.left := hleft
    have hall : taken.map lossy ++ a.left.map lossy = argv.tail.map lossy := by
      rw [hleft, List.map_append]
    have hlength : a.length = (a.left.map lossy).length := (List.length_map lossy).symm
    refine ⟨a.left.map lossy, ⟨[]⟩, yields_iff.mpr ⟨a.left, by simp, rfl⟩,
      next?_eq_none_iff.mpr rfl, hall, hall.symm, hlength, ?_, ?_⟩
    · rw [bounds, hlength]
    · rw [ofVector, hleft, List.length_map]
      exact stages_append taken a.left
  · rintro t rfl
    exact lossy_encode t
  · exact fun t => lossy_encode_append t bs
  · rintro reads hne rfl t
    exact Reader.ended_iff_lossy hne t

/-- After the first of two arguments, and for a character that two reads cut. -/
theorem Arguments.decoding_law_second :
    let argv : List Bytes := [[0x66], [0x61, 0xE2, 0x82], [0xC3, 0xA9]]
    let reads : List Bytes := [[0xC3], [0xA9]]
    (ofVector argv).Yields [['a', replacement]] ⟨[[0xC3, 0xA9]]⟩ ∧
    (ofVector argv).toList = [['a', replacement], ['é']] ∧
    (∀ read ∈ reads, read ≠ []) ∧
    (Reader.start.feedAll (reads ++ [[]])).content = lossy [0xC3, 0xA9] := by
  intro argv reads
  have hfirst : (ofVector argv).Yields [['a', replacement]] ⟨[[0xC3, 0xA9]]⟩ :=
    .next (by decide) (.none _)
  have hne : ∀ read ∈ reads, read ≠ [] := by decide
  obtain ⟨hpoints, hread⟩ := Arguments.decoding_law
  obtain ⟨later, _, _, _, hall, htold, _⟩ := hpoints argv _ _ hfirst
  obtain ⟨_, _, _, _, hagree⟩ := hread [0xC3, 0xA9]
  refine ⟨hfirst, ?_, hne, ?_⟩
  · rw [htold, hall]
    decide
  · exact ((hagree reads hne rfl _).mpr ⟨rfl, by decide⟩).2

end Offspring
