import Offspring.Text.Basic
/-!
# Byte strings

Names of files, scripts and arguments are rows of bytes.  To be read with patterns
they are held as texts in which every byte is the character of its number.
-/

namespace Offspring

/-- A byte string, each byte as the character of its number. -/
abbrev Octets := Text

namespace Octets

/-- The byte string of some bytes. -/
def ofBytes (bs : Bytes) : Octets :=
  bs.map fun b => Char.ofNat b.toNat

/-- The bytes of a byte string. -/
def toBytes (t : Octets) : Bytes :=
  t.map fun c => UInt8.ofNat c.toNat

/-- The byte string of a text. -/
def ofText (t : Text) : Octets :=
  ofBytes t.encode

/-- The byte string of a row of ASCII characters. -/
def of (s : String) : Octets :=
  s.toList

/-- Some byte strings, one after the other with another one between them. -/
def join (between : Octets) : List Octets → Octets
  | [] => []
  | [t] => t
  | t :: ts => t ++ between ++ join between ts

end Octets

end Offspring
