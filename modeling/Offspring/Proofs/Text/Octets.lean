import Offspring.Proofs.Text.Lossy
import Offspring.Proofs.Text.Path
import Offspring.Text.Octets
/-!
# Paths as text and as bytes

A byte below 0x80 stands in an encoding only as the whole of a character
(`Utf8.encodeChar_of_mem`), so a slash among the bytes of a text is a slash of the text.  Hence
the bytes of a path fall into the bytes of its pieces (`pieces_encode`), its file name is the
same read either way (`fileName?_encode`), and joining paths is the same before and after
(`Octets.ofText_push`).
-/

namespace Offspring

namespace Utf8

/-- A byte below 0x80 is all of the character that it belongs to. -/
theorem encodeChar_of_mem {b : UInt8} {c : Char} (hb : b.toNat ≤ 0x7F)
    (h : b ∈ String.utf8EncodeChar c) : String.utf8EncodeChar c = [b] := by
  have hspells := spells_encodeChar c
  generalize String.utf8EncodeChar c = bs at h hspells
  cases hspells with
  | one a ha => rw [List.mem_singleton.mp h]
  | two a b' ha hb' =>
      rw [Span.tail_holds_iff] at hb'
      simp only [List.mem_cons, List.not_mem_nil, or_false] at h
      rcases h with rfl | rfl <;> omega
  | three a b' c ha hb' hc =>
      rw [afterThree_holds_iff] at hb'
      rw [Span.tail_holds_iff] at hc
      simp only [List.mem_cons, List.not_mem_nil, or_false] at h
      rcases h with rfl | rfl | rfl <;> omega
  | four a b' c d ha hb' hc hd =>
      rw [afterFour_holds_iff] at hb'
      rw [Span.tail_holds_iff] at hc hd
      simp only [List.mem_cons, List.not_mem_nil, or_false] at h
      rcases h with rfl | rfl | rfl | rfl <;> omega

/-- A character of one byte below 0x80 is the only one with that byte. -/
theorem eq_of_mem_encodeChar {a c : Char} {b : UInt8} (ha : String.utf8EncodeChar a = [b])
    (hb : b.toNat ≤ 0x7F) (h : b ∈ String.utf8EncodeChar c) : c = a := by
  have hone : Text.encode [c] = Text.encode [a] := by
    rw [Text.encode_cons, Text.encode_cons, ha, encodeChar_of_mem hb h]
  exact (List.cons.inj (encode_injective hone)).1

theorem slash_mem_encodeChar {c : Char} (h : (0x2F : UInt8) ∈ String.utf8EncodeChar c) :
    c = '/' :=
  eq_of_mem_encodeChar (by decide) (by decide) h

theorem slash_mem_encode {t : Text} (h : (0x2F : UInt8) ∈ t.encode) : '/' ∈ t := by
  obtain ⟨c, hc, hbyte⟩ := List.mem_flatMap.mp h
  rwa [slash_mem_encodeChar hbyte] at hc

end Utf8

/-- **The bytes of a path fall into the bytes of its pieces.** -/
theorem pieces_encode (t : Text) :
    pieces 0x2F t.encode = (pieces '/' t).map Text.encode := by
  induction t with
  | nil => rfl
  | cons c t ih =>
      by_cases hc : c = '/'
      · subst hc
        have hbyte : String.utf8EncodeChar '/' = [0x2F] := by decide
        rw [Text.encode_cons, hbyte, List.singleton_append, pieces, if_pos rfl, ih, pieces,
          if_pos rfl]
        rfl
      · have hplain : (0x2F : UInt8) ∉ String.utf8EncodeChar c := fun h =>
          hc (Utf8.slash_mem_encodeChar h)
        rw [pieces, if_neg hc, Text.encode_cons]
        cases hps : pieces '/' t with
        | nil => exact absurd hps (pieces_ne_nil '/' t)
        | cons p ps =>
            rw [hps, List.map_cons] at ih
            rw [pieces_append_of_notMem hplain ih, List.map_cons, Text.encode_cons]

/-- Bytes are the encoding of one text only. -/
theorem encode_eq_iff {s t : Text} : s.encode = t.encode ↔ s = t :=
  ⟨Utf8.encode_injective, congrArg Text.encode⟩

/-- A piece names something read as text just when it does as bytes. -/
theorem names_encode (p : Text) : bytePath.names p.encode = textPath.names p := by
  have hnil : p.encode = [] ↔ p = [] := encode_eq_iff (t := [])
  have hdot : p.encode = [0x2E] ↔ p = ['.'] := encode_eq_iff (t := ['.'])
  rw [Bool.eq_iff_iff]
  simp [PathSymbols.names, bytePath, textPath, hnil, hdot]

/-- **The file name of a path is the same, read as bytes or as text.** -/
theorem fileName?_encode (t : Text) :
    bytePath.fileName? t.encode = (textPath.fileName? t).map Text.encode :=
  PathSymbols.fileName?_of_map (pieces_encode t) names_encode
    fun _ => encode_eq_iff (t := ['.', '.'])

namespace Octets

theorem ofText_append (s t : Text) : ofText (s ++ t) = ofText s ++ ofText t := by
  simp [ofText, ofBytes]

/-- A byte string is as long as the text takes bytes. -/
theorem length_ofText (t : Text) : (ofText t).length = t.size := by
  rw [ofText, ofBytes, List.length_map, Text.length_encode]

theorem ofText_eq_nil_iff {t : Text} : ofText t = [] ↔ t = [] := by
  rw [ofText, ofBytes, List.map_eq_nil_iff]
  exact encode_eq_iff (t := [])

theorem slash_mem_ofText {t : Text} (h : '/' ∈ ofText t) : '/' ∈ t := by
  obtain ⟨b, hb, hslash⟩ := List.mem_map.mp h
  have hbyte : b = 0x2F := by
    have hnat : (Char.ofNat b.toNat).val.toNat = 0x2F := congrArg (·.val.toNat) hslash
    rw [Utf8.toNat_ofNat (.inl (Nat.lt_trans b.toNat_lt (by decide)))] at hnat
    exact UInt8.toNat_inj.mp hnat
  rw [hbyte] at hb
  exact Utf8.slash_mem_encode hb

theorem getLast?_ofText (t : Text) :
    (ofText t).getLast? = some textPath.slash ↔ t.getLast? = some textPath.slash := by
  rcases List.eq_nil_or_concat' t with rfl | ⟨front, c, rfl⟩
  · rfl
  · have hc : ofText [c] ≠ [] := mt ofText_eq_nil_iff.mp (List.cons_ne_nil c [])
    rw [ofText_append, List.getLast?_append_of_ne_nil _ hc, List.getLast?_concat]
    constructor
    · intro h
      have hslash : '/' = c :=
        List.mem_singleton.mp (slash_mem_ofText (List.mem_of_getLast? h))
      rw [← hslash]
      rfl
    · intro h
      rw [Option.some.inj h]
      rfl

theorem ofText_closed (path : Text) :
    ofText (textPath.closed path) = textPath.closed (ofText path) := by
  have hlast := getLast?_ofText path
  unfold PathSymbols.closed
  by_cases hpath : path.getLast? = some textPath.slash
  · rw [if_pos hpath, if_pos (hlast.mpr hpath)]
  · rw [if_neg hpath, if_neg (mt hlast.mp hpath), ofText_append]
    rfl

/-- **Paths are joined alike as texts and as byte strings.** -/
theorem ofText_push {part : Text} (h : '/' ∉ part) (path : Text) :
    ofText (textPath.push path part) = textPath.push (ofText path) (ofText part) := by
  have hpart : textPath.isAbsolute part = false := PathSymbols.isAbsolute_of_notMem h
  have hpart' : textPath.isAbsolute (ofText part) = false :=
    PathSymbols.isAbsolute_of_notMem (mt slash_mem_ofText h)
  by_cases hpath : path = []
  · subst hpath
    simp [PathSymbols.push, hpart, ofText, ofBytes]
  · rw [PathSymbols.push_of_relative hpath hpart,
      PathSymbols.push_of_relative (mt ofText_eq_nil_iff.mp hpath) hpart', ofText_append,
      ofText_closed]

end Octets

end Offspring
