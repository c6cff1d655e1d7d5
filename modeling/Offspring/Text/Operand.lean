import Offspring.Text.Decimal
/-!
# The number at the head of an operand

An operand is read leniently: blanks are skipped, one sign is taken, then as many
decimal digits as follow, and whatever comes after them does not count.  No digit
means zero, and a number outside 32 bits becomes the nearest one inside.

Reading stops as soon as the number is past `ceiling`, one above the largest
result, because no further digit can change the answer.
-/

namespace Offspring.Operand

/-- The characters skipped before a number. -/
def isBlank (c : Char) : Bool :=
  c = ' ' || c = '\t' || c = '\n' || c = '\x0b' || c = '\x0c' || c = '\r'

/-- The largest number an operand can stand for. -/
def largest : Int := 2147483647

/-- The smallest number an operand can stand for. -/
def smallest : Int := -2147483648

/-- Past this number no digit changes the answer. -/
def ceiling : Nat := 2147483648

/-- The number so far, carried on over the digits that follow until they end or
the number is past the ceiling. -/
def accumulate (v : Nat) : Text → Nat
  | [] => v
  | c :: t =>
    if c.isDigit then
      let v' := v * 10 + Decimal.digitValue c
      if v' > ceiling then v' else accumulate v' t
    else v

/-- The sign and what follows it: true for a minus. -/
def sign : Text → Bool × Text
  | '-' :: t => (true, t)
  | '+' :: t => (false, t)
  | t => (false, t)

/-- The nearest number that fits 32 bits. -/
def clamp (v : Int) : Int :=
  if v < smallest then smallest else if largest < v then largest else v

/-- The number at the head of an operand. -/
def leadingInt (t : Text) : Int :=
  let signed := sign (t.dropWhile isBlank)
  let v : Int := accumulate 0 signed.2
  clamp (if signed.1 then -v else v)

example : leadingInt " \t-12x".toList = -12 ∧ leadingInt "+-1".toList = 0 ∧
    leadingInt "99999999999".toList = largest := by decide

end Offspring.Operand
