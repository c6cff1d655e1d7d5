import Offspring.System.Files
/-!
# Patterns

In a pattern a star matches any text, a question mark any one character, and a
bracket one character of a set.  A quoted character matches itself only.
-/

namespace Offspring.Shell

/-- A character of an expanded word. -/
structure Glyph where
  char : Char
  /-- It stands for itself. -/
  quoted : Bool
  /-- It came from a substitution outside quotes, so a word may be split at it. -/
  splits : Bool
  deriving DecidableEq, Repr

namespace Glyph

/-- A character that may have a meaning. -/
def plain (c : Char) : Glyph := ⟨c, false, false⟩

/-- Whether it is a character with its meaning. -/
def means (g : Glyph) (c : Char) : Bool :=
  g.char = c && !g.quoted

end Glyph

namespace Pattern

/-- The characters of a named class. -/
def inClass (name : Octets) (c : Char) : Bool :=
  let is (s : String) : Bool := name = Octets.of s
  let n := c.toNat
  if is "alpha" then c.isAlpha
  else if is "digit" then c.isDigit
  else if is "alnum" then c.isAlphanum
  else if is "upper" then c.isUpper
  else if is "lower" then c.isLower
  else if is "space" then n = 0x20 || (0x9 ≤ n && n ≤ 0xD)
  else if is "blank" then n = 0x20 || n = 0x9
  else if is "punct" then 0x20 < n && n < 0x7F && !c.isAlphanum
  else if is "print" then 0x20 ≤ n && n < 0x7F
  else if is "graph" then 0x20 < n && n < 0x7F
  else if is "cntrl" then n < 0x20 || n = 0x7F
  else if is "xdigit" then c.isDigit || ('a' ≤ c && c ≤ 'f') || ('A' ≤ c && c ≤ 'F')
  else false

/-- The class at the start of a pattern, if one is there, and what follows it. -/
def classAt (p : List Glyph) : Option (Octets × List Glyph) :=
  match p with
  | a :: b :: rest =>
    if a.means '[' && b.means ':' then
      let name := (rest.takeWhile fun g => g.char.isAlpha).map Glyph.char
      match rest.drop name.length with
      | x :: y :: rest => if x.means ':' && y.means ']' then some (name, rest) else none
      | _ => none
    else none
  | _ => none

/-- Whether a character is in the set that a pattern goes on with, and what follows the
set; none if the set has no end.  A bracket that comes first is in the set. -/
def inSet (c : Char) : Nat → Bool → List Glyph → Option (Bool × List Glyph)
  | 0, _, _ => none
  | _ + 1, _, [] => none
  | n + 1, first, g :: rest =>
    if g.means ']' && !first then some (false, rest)
    else
      match classAt (g :: rest) with
      | some (name, rest) =>
        (inSet c n false rest).map fun r => (r.1 || inClass name c, r.2)
      | none =>
        match rest with
        | d :: e :: more =>
          if d.means '-' && !e.means ']' then
            (inSet c n false more).map fun r =>
              (r.1 || (g.char.toNat ≤ c.toNat && c.toNat ≤ e.char.toNat), r.2)
          else (inSet c n false rest).map fun r => (r.1 || g.char = c, r.2)
        | _ => (inSet c n false rest).map fun r => (r.1 || g.char = c, r.2)

/-- What a bracket at the head of a pattern says about a character, and what follows. -/
def bracket (c : Char) (rest : List Glyph) : Option (Bool × List Glyph) :=
  match rest with
  | [] => none
  | g :: more =>
    if g.means '!' then (inSet c (more.length + 1) true more).map fun r => (!r.1, r.2)
    else inSet c (rest.length + 1) true rest

/-- Whether a pattern matches a text.  Every round takes something of one of the two. -/
def matchesIn : Nat → List Glyph → Octets → Bool
  | 0, _, _ => false
  | _ + 1, [], t => t.isEmpty
  | n + 1, g :: p, t =>
    if g.means '*' then
      matchesIn n p t ||
        match t with
        | [] => false
        | _ :: u => matchesIn n (g :: p) u
    else
      match t with
      | [] => false
      | c :: u =>
        if g.means '?' then matchesIn n p u
        else if g.means '[' then
          match bracket c p with
          | some (isIn, rest) => isIn && matchesIn n rest u
          | none => g.char = c && matchesIn n p u
        else g.char = c && matchesIn n p u

/-- Whether a pattern matches a text. -/
def fits (p : List Glyph) (t : Octets) : Bool :=
  matchesIn (p.length + t.length + 1) p t

/-- Whether a pattern may match more than one text. -/
def isOpen (p : List Glyph) : Bool :=
  p.any fun g => g.means '*' || g.means '?' || g.means '['

/-- A text without the shortest or longest part at one end that a pattern matches. -/
def strip (p : List Glyph) (atEnd longest : Bool) (t : Octets) : Octets :=
  let sizes := if longest then (List.range (t.length + 1)).reverse else List.range (t.length + 1)
  let found := sizes.find? fun n =>
    fits p (if atEnd then t.drop (t.length - n) else t.take n)
  match found with
  | none => t
  | some n => if atEnd then t.take (t.length - n) else t.drop n

/-- Whether one byte string comes before another. -/
def precedes : Octets → Octets → Bool
  | [], _ => true
  | _ :: _, [] => false
  | a :: s, b :: t => a.toNat < b.toNat || (a = b && precedes s t)

/-- The parts of a pattern between slashes, with the slashes that precede each. -/
def parts : List Glyph → List (List Glyph × List Glyph)
  | [] => []
  | g :: rest =>
    match parts rest with
    | (slashes, part) :: more =>
      if g.char = '/' then
        if slashes.isEmpty && !part.isEmpty then ([g], part) :: more
        else (g :: slashes, part) :: more
      else if slashes.isEmpty then ([], g :: part) :: more
      else ([], [g]) :: (slashes, part) :: more
    | [] => if g.char = '/' then [([g], [])] else [([], [g])]

/-- The text of a pattern as it is written. -/
def text (p : List Glyph) : Octets :=
  p.map Glyph.char

/-- The paths that a row of pattern parts leads to, from a path on, in order. -/
def paths (f : Files) (cwd : List Octets) : List (List Glyph × List Glyph) → Octets → List Octets
  | [], at' => [at']
  | (slashes, part) :: more, at' =>
    let at' := at' ++ text slashes
    if part.isEmpty then paths f cwd more at'
    else if isOpen part then
      let here := if at'.isEmpty then ['.'] else at'
      let names := match f.lookup cwd here with
        | .ok e => if e.isFolder then ['.'] :: ['.', '.'] :: e.entries.map Prod.fst else []
        | .error _ => []
      let hidden := match part with
        | g :: _ => g.char == '.'
        | [] => false
      let found := (names.filter fun n => (hidden || n.head? != some '.') && fits part n)
      (found.mergeSort precedes).flatMap fun n =>
        if more.isEmpty || f.isFolder cwd (at' ++ n) then paths f cwd more (at' ++ n) else []
    else
      let at' := at' ++ text part
      if more.isEmpty then
        match f.locate cwd at' false with
        | .ok _ => [at']
        | .error _ => []
      else paths f cwd more at'

/-- The paths that a pattern matches. -/
def found (f : Files) (cwd : List Octets) (p : List Glyph) : List Octets :=
  if isOpen p then paths f cwd (parts p) [] else []

end Pattern

end Offspring.Shell
