/-!
# Text and its bytes

A text is a list of characters and a stream is a list of bytes.  The bytes of a
text are its UTF-8 encoding, so a text has two measures: how many characters it
has, and how many bytes they take (`Text.size`).  Positions inside a text are
counted in bytes, and `Text.fromByte?` refuses a position that lies beyond the
end or inside a character.
-/

namespace Offspring

/-- A byte string, as a pipe or an argument vector carries it. -/
abbrev Bytes := List UInt8

/-- A text, as a list of characters. -/
abbrev Text := List Char

namespace Text

/-- The UTF-8 encoding of a text. -/
def encode (t : Text) : Bytes :=
  t.flatMap String.utf8EncodeChar

/-- The number of bytes in the encoding of a text. -/
def size : Text → Nat
  | [] => 0
  | c :: t => c.utf8Size + size t

/-- The text from byte `n` on, when byte `n` is where a character starts or the
end of the text. -/
def fromByte? : Nat → Text → Option Text
  | 0, t => some t
  | _ + 1, [] => none
  | n + 1, c :: t => if c.utf8Size ≤ n + 1 then fromByte? (n + 1 - c.utf8Size) t else none

/-- Whether `part` occurs in a text as consecutive characters. -/
def holds (part : Text) : Text → Bool
  | [] => part.isEmpty
  | c :: t => part.isPrefixOf (c :: t) || holds part t

/-- Whether a text has a NUL, which no name or argument may have. -/
def hasNul (t : Text) : Bool :=
  t.any fun c => c = '\x00'

/-- A text cut after its last newline: what ends in a newline, and the rest, which
has none. -/
def cutAfterNewline : Text → Text × Text
  | [] => ([], [])
  | c :: t =>
    match cutAfterNewline t with
    | ([], rest) => if c = '\n' then ([c], rest) else ([], c :: rest)
    | (d :: ready, rest) => (c :: d :: ready, rest)

@[simp] theorem size_nil : size [] = 0 := rfl

@[simp] theorem size_cons (c : Char) (t : Text) : size (c :: t) = c.utf8Size + size t := rfl

@[simp] theorem size_append (s t : Text) : size (s ++ t) = size s + size t := by
  induction s with
  | nil => simp
  | cons c s ih => simp [ih, Nat.add_assoc]

theorem size_replicate (n : Nat) (c : Char) : size (List.replicate n c) = n * c.utf8Size := by
  induction n with
  | zero => simp
  | succ n ih => rw [List.replicate_succ, size_cons, ih, Nat.succ_mul, Nat.add_comm]

@[simp] theorem encode_nil : encode [] = [] := rfl

@[simp] theorem encode_cons (c : Char) (t : Text) :
    encode (c :: t) = String.utf8EncodeChar c ++ encode t := by
  simp [encode]

@[simp] theorem encode_append (s t : Text) : encode (s ++ t) = encode s ++ encode t := by
  simp [encode]

/-- The size of a text is the length of its encoding. -/
theorem length_encode (t : Text) : t.encode.length = t.size := by
  induction t with
  | nil => rfl
  | cons c t ih => simp [ih, String.length_utf8EncodeChar]

theorem fromByte?_zero (t : Text) : fromByte? 0 t = some t := by
  cases t <;> rfl

/-- The two parts of a cut make up the text. -/
theorem cutAfterNewline_append (t : Text) :
    (cutAfterNewline t).1 ++ (cutAfterNewline t).2 = t := by
  induction t with
  | nil => rfl
  | cons c t ih =>
    unfold cutAfterNewline
    split
    · next rest h =>
      rw [h] at ih
      split <;> simp_all
    · next d ready rest h =>
      rw [h] at ih
      simpa using ih

/-- What follows the cut has no newline. -/
theorem newline_notMem_cutAfterNewline (t : Text) : '\n' ∉ (cutAfterNewline t).2 := by
  induction t with
  | nil => simp [cutAfterNewline]
  | cons c t ih =>
    unfold cutAfterNewline
    split
    · next rest h =>
      rw [h] at ih
      split
      · exact ih
      · next hc => simp [ih, Ne.symm hc]
    · next d ready rest h =>
      rw [h] at ih
      exact ih

end Text

end Offspring
