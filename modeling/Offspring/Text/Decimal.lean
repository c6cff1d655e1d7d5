import Offspring.Text.Basic
/-!
# Decimal numbers

`Decimal.ofNat` and `Decimal.ofInt` write a number with the fewest digits, and
`Decimal.value` reads a row of digits as an unbounded number.
-/

namespace Offspring.Decimal

/-- The digit of a number below ten. -/
def digit (n : Nat) : Char :=
  Char.ofNat (0x30 + n)

/-- The number a digit stands for. -/
def digitValue (c : Char) : Nat :=
  c.toNat - 0x30

/-- A number in decimal, without leading zeros. -/
def ofNat (n : Nat) : Text :=
  if n < 10 then [digit n] else ofNat (n / 10) ++ [digit (n % 10)]

/-- A number in decimal, with a minus sign when it is negative. -/
def ofInt : Int → Text
  | .ofNat n => ofNat n
  | .negSucc n => '-' :: ofNat (n + 1)

/-- The value of a row of digits that follow a number already read. -/
def valueFrom (v : Nat) : Text → Nat
  | [] => v
  | c :: t => valueFrom (v * 10 + digitValue c) t

/-- The value of a row of digits. -/
def value (t : Text) : Nat :=
  valueFrom 0 t

example : ofInt (-120) = "-120".toList ∧ value "0042".toList = 42 := by decide +kernel

end Offspring.Decimal
