import Offspring.Text.Decimal
import Offspring.Text.Octets
/-!
# Whole numbers of 64 bits

Numbers in texts are decimal, or octal and hexadecimal by how they start.  A sum that 64
bits do not hold loses its upper bits, and a written number that they do not hold is
replaced by the nearest one that they do.
-/

namespace Offspring.Whole

/-- A number as 64 bits hold it. -/
def wrap (n : Int) : Int :=
  Int.bmod n 18446744073709551616

/-- The largest number. -/
def largest : Int := 9223372036854775807

/-- The smallest number. -/
def smallest : Int := -9223372036854775808

/-- The nearest number that 64 bits hold. -/
def clamp (n : Int) : Int :=
  max smallest (min largest n)

/-- Whether a character is a blank between tokens. -/
def isBlank (c : Char) : Bool :=
  c = ' ' || ('\t' ≤ c && c ≤ '\r')

/-- The value of a digit in a base, if it is one. -/
def digit? (base : Nat) (c : Char) : Option Nat :=
  let v :=
    if c.isDigit then c.toNat - 0x30
    else if 'a' ≤ c && c ≤ 'z' then c.toNat - 0x57
    else if 'A' ≤ c && c ≤ 'Z' then c.toNat - 0x37
    else 99
  if v < base then some v else none

/-- The digits of a base at the start of a text, and what follows. -/
def digits (base : Nat) : Octets → Nat × Nat × Octets
  | [] => (0, 0, [])
  | c :: t =>
    match digit? base c with
    | none => (0, 0, c :: t)
    | some _ =>
      let taken := (c :: t).takeWhile fun c => (digit? base c).isSome
      (taken.foldl (fun v c => v * base + (digit? base c).getD 0) 0, taken.length,
        (c :: t).drop taken.length)

/-- The number at the start of a text, as it is written in a program: octal after a zero,
and hexadecimal after a zero and an x. -/
def constant (t : Octets) : Nat × Nat × Octets :=
  match t with
  | '0' :: x :: rest =>
    if x = 'x' || x = 'X' then
      let (v, n, more) := digits 16 rest
      if n = 0 then (0, 1, x :: rest) else (v, n + 2, more)
    else digits 8 t
  | _ => digits 10 t

/-- A number with blanks and a sign before it, and what follows; none without digits. -/
def signed? (base : Nat) (t : Octets) : Option (Int × Octets) :=
  let t := t.dropWhile isBlank
  let (negative, t) := match t with
    | '-' :: t => (true, t)
    | '+' :: t => (false, t)
    | t => (false, t)
  let (v, n, rest) := if base = 0 then constant t else digits base t
  if n = 0 then none else some (if negative then -(v : Int) else v, rest)

/-- The number that a whole text is, with blanks around it; an empty one is zero. -/
def whole? (base : Nat) (t : Octets) : Option Int :=
  match signed? base t with
  | some (v, rest) => if rest.all isBlank then some (clamp v) else none
  | none => if t.all isBlank then some 0 else none

end Offspring.Whole
