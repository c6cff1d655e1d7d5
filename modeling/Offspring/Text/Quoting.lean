import Offspring.Text.Octets
/-!
# Quoted names

A name in a message is quoted so that a shell would read it back: bare when every
character is harmless, else in single quotes, with bytes that cannot be shown escaped
between `$'` and `'`.  Other texts stand in single quotes with backslashes.
-/

namespace Offspring.Quoting

/-- Whether a byte can be shown. -/
def isShown (c : Char) : Bool :=
  ' ' ≤ c && c ≤ '~'

/-- Three octal digits. -/
def octal (c : Char) : Octets :=
  let n := c.toNat
  [Nat.digitChar (n / 64 % 8), Nat.digitChar (n / 8 % 8), Nat.digitChar (n % 8)]

/-- The letters for some bytes after a backslash. -/
def letter? : Char → Option Char
  | '\x07' => some 'a'
  | '\x08' => some 'b'
  | '\x0c' => some 'f'
  | '\n' => some 'n'
  | '\r' => some 'r'
  | '\t' => some 't'
  | '\x0b' => some 'v'
  | _ => none

/-- A byte after a backslash. -/
def escape (c : Char) : Octets :=
  match letter? c with
  | some d => ['\\', d]
  | none => '\\' :: octal c

/-- Whether a character needs no quotes anywhere. -/
def isPlain (c : Char) : Bool :=
  c.isAlphanum || "%+,-./:]_@".toList.contains c

/-- Whether a name needs no quotes; a colon may be harmless or not. -/
def isBare (colon : Bool) (t : Octets) : Bool :=
  match t with
  | [] => false
  | ['\x7b'] => false
  | ['\x7d'] => false
  | c :: rest =>
    !(c = '#' || c = '~') && (c :: rest).all fun c =>
      (isPlain c || c = '#' || c = '~' || c = '\x7b' || c = '\x7d') && (colon || c != ':')

/-- The inside of single quotes, where the last byte was escaped or not. -/
def inside (escaped : Bool) : Octets → Octets
  | [] => []
  | c :: t =>
    if c = '\x27' then
      (if escaped then Octets.of "''" else []) ++ Octets.of "'\\''" ++ inside false t
    else if isShown c then (if escaped then Octets.of "''" else []) ++ c :: inside false t
    else (if escaped then [] else Octets.of "'$'") ++ escape c ++ inside true t

/-- A name with quotes. -/
def always (t : Octets) : Octets :=
  if t.contains '\x27' && t.all fun c => isPlain c || c = ' ' || c = '\x27' then
    '\x22' :: t ++ ['\x22']
  else '\x27' :: inside false t ++ ['\x27']

/-- A name with quotes if it needs them; a colon needs them too. -/
def name (t : Octets) : Octets :=
  if isBare false t then t else always t

/-- A word with quotes if it needs them. -/
def word (t : Octets) : Octets :=
  if isBare true t then t else always t

/-- A text with quotes and backslashes. -/
def text (t : Octets) : Octets :=
  '\x27' :: (t.flatMap fun c =>
    if c = '\\' || c = '\x27' then ['\\', c]
    else if isShown c then [c] else escape c) ++ ['\x27']

end Offspring.Quoting
